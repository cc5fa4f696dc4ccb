import ConferenceLedger.Ledger.Genesis
import ConferenceLedger.Ledger.Operation
import ConferenceLedger.Proofs.Codec.RoundTrip

/-!
# Reading back records and operations

Every stored record and every operation is read back from its binary form. Identifiers and
numbers always fit; the texts, blobs and lists of a record must each fit.
-/

namespace ConferenceLedger.LawfulBinary

instance : LawfulBinary PublicKey where
  Fits _ := True
  get_put k _ rest := by
    change ((Binary.get : Reader (Octets 32)) >>= fun o => pure (PublicKey.mk o))
      (put k.octets ++ rest) = _
    rw [get_bind (by decide : 2 * 32 < UInt64.size)]
    rfl

instance : LawfulBinary Address where
  Fits _ := True
  get_put a _ rest := by
    change ((Binary.get : Reader (Octets 20)) >>= fun o => pure (Address.mk o))
      (put a.octets ++ rest) = _
    rw [get_bind (by decide : 2 * 20 < UInt64.size)]
    rfl

instance : LawfulBinary Commitment where
  Fits _ := True
  get_put c _ rest := by
    change ((Binary.get : Reader (Octets 32)) >>= fun o => pure (Commitment.mk o))
      (put c.octets ++ rest) = _
    rw [get_bind (by decide : 2 * 32 < UInt64.size)]
    rfl

instance : LawfulBinary ScanId where
  Fits i := 2 * i.bytes.length < UInt64.size
  get_put i h rest := by
    change ((Binary.get : Reader Blob) >>= fun b => pure (ScanId.mk b.bytes))
      (put (Blob.mk i.bytes) ++ rest) = _
    rw [get_bind (a := Blob.mk i.bytes) h]
    rfl

instance : LawfulBinary Account where
  Fits _ := True
  get_put a _ rest := by
    change (do return Account.mk (← Binary.get) (← Binary.get) (← Binary.get) (← Binary.get) :
      Reader Account) (put a.address ++ put a.number ++ put a.sequence ++ put a.pubKey ++ rest) = _
    simp only [List.append_assoc]
    rw [get_bind trivial, get_bind trivial, get_bind trivial, get_bind fun _ _ => trivial]
    rfl

instance : LawfulBinary Win where
  Fits w := Fits w.name
  get_put w h rest := by
    change (do return Win.mk (← Binary.get) (← Binary.get) (← Binary.get) : Reader Win)
      (put w.tier ++ put w.name ++ put w.claimed ++ rest) = _
    simp only [List.append_assoc]
    rw [get_bind trivial, get_bind h, get_bind trivial]
    rfl

instance : LawfulBinary Prize where
  Fits p := Fits p.text
  get_put p h rest := by
    change (do return Prize.mk (← Binary.get) (← Binary.get) (← Binary.get) (← Binary.get) :
      Reader Prize) (put p.tier ++ put p.repNeeded ++ put p.text ++ put p.quantity ++ rest) = _
    simp only [List.append_assoc]
    rw [get_bind trivial, get_bind trivial, get_bind h, get_bind trivial]
    rfl

/-- A prize that is read fits. -/
theorem fits_of_decode_prize {b : Bytes} {p : Prize} (h : Binary.decode b = .ok p) : Fits p := by
  obtain ⟨rest, hread⟩ := Reader.value_eq_ok h
  obtain ⟨tier, left, -, hread⟩ := Reader.bind_eq_ok hread
  obtain ⟨repNeeded, left, -, hread⟩ := Reader.bind_eq_ok hread
  obtain ⟨text, left, htext, hread⟩ := Reader.bind_eq_ok hread
  obtain ⟨quantity, left, -, hread⟩ := Reader.bind_eq_ok hread
  cases hread
  exact fits_of_get_text htext

instance : LawfulBinary Attendee where
  Fits a := Fits a.id ∧ Fits a.ticketClass ∧ Fits a.name ∧ Fits a.rsaPublicKey ∧
    Fits a.encryptedInfo ∧ Fits a.scanIds ∧ Fits a.winnings
  get_put a h rest := by
    obtain ⟨hid, hclass, hname, hrsa, hinfo, hscans, hwins⟩ := h
    change (do
      return Attendee.mk (← Binary.get) (← Binary.get) (← Binary.get) (← Binary.get) (← Binary.get)
        (← Binary.get) (← Binary.get) (← Binary.get) (← Binary.get) (← Binary.get) (← Binary.get)
        (← Binary.get) (← Binary.get) : Reader Attendee)
      (put a.address ++ put a.id ++ put a.ticketClass ++ put a.name ++ put a.pubKey ++
        put a.commitment ++ put a.claimed ++ put a.rep ++ put a.tier ++ put a.rsaPublicKey ++
        put a.encryptedInfo ++ put a.scanIds ++ put a.winnings ++ rest) = _
    simp only [List.append_assoc]
    rw [get_bind trivial, get_bind hid, get_bind hclass, get_bind hname,
      get_bind fun _ _ => trivial, get_bind fun _ _ => trivial, get_bind trivial, get_bind trivial,
      get_bind trivial, get_bind hrsa, get_bind hinfo, get_bind hscans, get_bind hwins]
    rfl

instance : LawfulBinary Scan where
  Fits s := Fits s.id ∧ Fits s.first.data ∧ Fits s.second.data
  get_put s h rest := by
    obtain ⟨hid, hfirst, hsecond⟩ := h
    change (do
      let id ← Binary.get
      let s1 ← Binary.get
      let s2 ← Binary.get
      let d1 ← Binary.get
      let d2 ← Binary.get
      let p1 ← Binary.get
      let p2 ← Binary.get
      let time ← Binary.get
      return Scan.mk id ⟨s1, d1, p1⟩ ⟨s2, d2, p2⟩ time : Reader Scan)
      (put s.id ++ put s.first.address ++ put s.second.address ++ put s.first.data ++
        put s.second.data ++ put s.first.points ++ put s.second.points ++ put s.time ++ rest) = _
    simp only [List.append_assoc]
    rw [get_bind hid, get_bind trivial, get_bind trivial, get_bind hfirst, get_bind hsecond,
      get_bind trivial, get_bind trivial, get_bind trivial]
    rfl

/-- The identifier of a meeting is read back even if what the attendees shared is too long. -/
theorem id_of_decode_scan {x y : Scan} (h : Fits x.id) (hdecode : Binary.decode (put x) = .ok y) :
    y.id = x.id := by
  change Reader.value (do
      let id ← Binary.get
      let s1 ← Binary.get
      let s2 ← Binary.get
      let d1 ← Binary.get
      let d2 ← Binary.get
      let p1 ← Binary.get
      let p2 ← Binary.get
      let time ← Binary.get
      return Scan.mk id ⟨s1, d1, p1⟩ ⟨s2, d2, p2⟩ time)
    (put x.id ++ put x.first.address ++ put x.second.address ++ put x.first.data ++
      put x.second.data ++ put x.first.points ++ put x.second.points ++ put x.time) = _ at hdecode
  obtain ⟨rest, hread⟩ := Reader.value_eq_ok hdecode
  simp only [List.append_assoc] at hread
  rw [get_bind h] at hread
  obtain ⟨s1, b, -, hread⟩ := Reader.bind_eq_ok hread
  obtain ⟨s2, b, -, hread⟩ := Reader.bind_eq_ok hread
  obtain ⟨d1, b, -, hread⟩ := Reader.bind_eq_ok hread
  obtain ⟨d2, b, -, hread⟩ := Reader.bind_eq_ok hread
  obtain ⟨p1, b, -, hread⟩ := Reader.bind_eq_ok hread
  obtain ⟨p2, b, -, hread⟩ := Reader.bind_eq_ok hread
  obtain ⟨time, b, -, hread⟩ := Reader.bind_eq_ok hread
  cases hread
  rfl

instance : LawfulBinary RosterEntry where
  Fits e := Fits e.id ∧ Fits e.ticketClass
  get_put e h rest := by
    change (do return RosterEntry.mk (← Binary.get) (← Binary.get) : Reader RosterEntry)
      (put e.id ++ put e.ticketClass ++ rest) = _
    rw [List.append_assoc, get_bind h.1, get_bind h.2]
    rfl

instance : LawfulBinary KeyGrant where
  Fits _ := True
  get_put m _ rest := by
    change (do return KeyGrant.mk (← Binary.get) (← Binary.get) (← Binary.get) (← Binary.get) :
      Reader KeyGrant) (put m.attendee ++ put m.master ++ put m.newKey ++ put m.commitment ++ rest) = _
    simp only [List.append_assoc]
    rw [get_bind trivial, get_bind trivial, get_bind trivial, get_bind trivial]
    rfl

instance : LawfulBinary KeyClaim where
  Fits m := Fits m.name ∧ Fits m.secret ∧ Fits m.rsaPublicKey ∧ Fits m.encryptedInfo
  get_put m h rest := by
    obtain ⟨hname, hsecret, hrsa, hinfo⟩ := h
    change (do
      return KeyClaim.mk (← Binary.get) (← Binary.get) (← Binary.get) (← Binary.get)
        (← Binary.get) : Reader KeyClaim)
      (put m.attendee ++ put m.name ++ put m.secret ++ put m.rsaPublicKey ++
        put m.encryptedInfo ++ rest) = _
    simp only [List.append_assoc]
    rw [get_bind trivial, get_bind hname, get_bind hsecret, get_bind hrsa, get_bind hinfo]
    rfl

instance : LawfulBinary BadgeScan where
  Fits m := Fits m.ticket ∧ Fits m.data
  get_put m h rest := by
    change (do return BadgeScan.mk (← Binary.get) (← Binary.get) (← Binary.get) :
      Reader BadgeScan) (put m.sender ++ put m.ticket ++ put m.data ++ rest) = _
    simp only [List.append_assoc]
    rw [get_bind trivial, get_bind h.1, get_bind h.2]
    rfl

instance : LawfulBinary Redemption where
  Fits m := Fits m.ticket
  get_put m h rest := by
    change (do return Redemption.mk (← Binary.get) (← Binary.get) : Reader Redemption)
      (put m.sender ++ put m.ticket ++ rest) = _
    rw [List.append_assoc, get_bind trivial, get_bind h]
    rfl

/-- The index of a case is read back. -/
theorem getCase_putCase {cases index : Nat} (h : index < cases) (hcases : cases < UInt32.size)
    (rest : Bytes) :
    Binary.getCase cases (Binary.putCase index ++ rest) = .ok (⟨index, h⟩, rest) := by
  have hindex : (UInt32.ofNat index).toNat = index :=
    UInt32.toNat_ofNat_of_lt' (Nat.lt_trans h hcases)
  have hput : Binary.putCase index = put (UInt32.ofNat index) := by
    change Bytes.ofNatLE 4 index = Bytes.ofNatLE 4 (UInt32.ofNat index).toNat
    rw [hindex]
  rw [Binary.getCase, hput, get_bind trivial, dif_pos (by rwa [hindex])]
  simp only [hindex]
  rfl

/-- Reading an operation goes on with the contents of the case that the index names. -/
theorem get_operation {index : Nat} (h : index < 4) (rest : Bytes) :
    (Binary.get : Reader Operation) (Binary.putCase index ++ rest) =
      (match (⟨index, h⟩ : Fin 4) with
      | 0 => return .key (← Binary.get)
      | 1 => return .claimKey (← Binary.get)
      | 2 => return .scanQr (← Binary.get)
      | 3 => return .redeem (← Binary.get) : Reader Operation) rest :=
  Reader.bind_ok (getCase_putCase h (by decide) rest)

instance : LawfulBinary Operation where
  Fits
    | .key m => Fits m
    | .claimKey m => Fits m
    | .scanQr m => Fits m
    | .redeem m => Fits m
  get_put op h rest := by
    cases op with
    | key m =>
      change (Binary.get : Reader Operation) (Binary.putCase 0 ++ put m ++ rest) = _
      rw [List.append_assoc, get_operation (by decide)]
      exact get_bind h (fun m => (pure (.key m) : Reader Operation)) rest
    | claimKey m =>
      change (Binary.get : Reader Operation) (Binary.putCase 1 ++ put m ++ rest) = _
      rw [List.append_assoc, get_operation (by decide)]
      exact get_bind h (fun m => (pure (.claimKey m) : Reader Operation)) rest
    | scanQr m =>
      change (Binary.get : Reader Operation) (Binary.putCase 2 ++ put m ++ rest) = _
      rw [List.append_assoc, get_operation (by decide)]
      exact get_bind h (fun m => (pure (.scanQr m) : Reader Operation)) rest
    | redeem m =>
      change (Binary.get : Reader Operation) (Binary.putCase 3 ++ put m ++ rest) = _
      rw [List.append_assoc, get_operation (by decide)]
      exact get_bind h (fun m => (pure (.redeem m) : Reader Operation)) rest

end ConferenceLedger.LawfulBinary
