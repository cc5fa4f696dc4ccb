import ConferenceLedger.Gateway.Message
import ConferenceLedger.Proofs.Codec.Records
import ConferenceLedger.Proofs.Codec.Steady
import ConferenceLedger.Relay.Client

/-!
# Binary forms say where they end

Whatever follows the binary form of a value, the value is read back from it, and a binary form
that was cut off anywhere is not read at all. So a stored or sent value is never taken for another
one, and never for a beginning of one. This holds of all that the ledger stores, signs, answers
and is founded on. The only condition is again that the lengths in a value fit the eight bytes they
are written in. A byte string is written as its hexadecimal text, which is twice as long, so it must
have fewer than 2^63 bytes. That many is more than a memory holds in one piece.
-/

namespace ConferenceLedger

namespace SteadyBinary

open Reader

instance : SteadyBinary PublicKey := ⟨get_bind fun _ => .pure _⟩

instance : SteadyBinary Address := ⟨get_bind fun _ => .pure _⟩

instance : SteadyBinary Commitment := ⟨get_bind fun _ => .pure _⟩

instance : SteadyBinary ScanId := ⟨get_bind (α := Blob) fun _ => .pure _⟩

instance : SteadyBinary Account :=
  ⟨get_bind fun _ => get_bind fun _ => get_bind fun _ => get_bind fun _ => .pure _⟩

instance : SteadyBinary Win :=
  ⟨get_bind fun _ => get_bind fun _ => get_bind fun _ => .pure _⟩

instance : SteadyBinary Prize :=
  ⟨get_bind fun _ => get_bind fun _ => get_bind fun _ => get_bind fun _ => .pure _⟩

instance : SteadyBinary Attendee :=
  ⟨get_bind fun _ => get_bind fun _ => get_bind fun _ => get_bind fun _ => get_bind fun _ =>
    get_bind fun _ => get_bind fun _ => get_bind fun _ => get_bind fun _ => get_bind fun _ =>
      get_bind fun _ => get_bind fun _ => get_bind fun _ => .pure _⟩

instance : SteadyBinary Scan :=
  ⟨get_bind fun _ => get_bind fun _ => get_bind fun _ => get_bind fun _ => get_bind fun _ =>
    get_bind fun _ => get_bind fun _ => get_bind fun _ => .pure _⟩

instance : SteadyBinary RosterEntry := ⟨get_bind fun _ => get_bind fun _ => .pure _⟩

instance : SteadyBinary KeyGrant :=
  ⟨get_bind fun _ => get_bind fun _ => get_bind fun _ => get_bind fun _ => .pure _⟩

instance : SteadyBinary KeyClaim :=
  ⟨get_bind fun _ => get_bind fun _ => get_bind fun _ => get_bind fun _ => get_bind fun _ =>
    .pure _⟩

instance : SteadyBinary BadgeScan :=
  ⟨get_bind fun _ => get_bind fun _ => get_bind fun _ => .pure _⟩

instance : SteadyBinary Redemption := ⟨get_bind fun _ => get_bind fun _ => .pure _⟩

instance : SteadyBinary Operation where
  steady := by
    refine (getCase 4).bind fun index => ?_
    split
    · exact get_bind fun _ => .pure _
    · exact get_bind fun _ => .pure _
    · exact get_bind fun _ => .pure _
    · exact get_bind fun _ => .pure _

instance : SteadyBinary SignedTx :=
  ⟨get_bind fun _ => get_bind fun _ => get_bind fun _ => get_bind fun _ => get_bind fun _ =>
    .pure _⟩

instance : SteadyBinary TxResponse :=
  ⟨get_bind fun _ => get_bind fun _ => get_bind fun _ => get_bind fun _ => .pure _⟩

instance : SteadyBinary Genesis :=
  ⟨get_bind fun _ => get_bind fun _ => get_bind fun _ => get_bind fun _ => .pure _⟩

instance : SteadyBinary LeaderboardEntry :=
  ⟨get_bind fun _ => get_bind fun _ => get_bind fun _ => get_bind fun _ => .pure _⟩

instance : SteadyBinary AccountInfo := ⟨get_bind fun _ => get_bind fun _ => .pure _⟩

instance : SteadyBinary ErrorCode where
  steady := by
    refine (getCase 8).bind fun index => ?_
    split <;> exact .pure _

end SteadyBinary

namespace LawfulBinary

instance : LawfulBinary SignedTx where
  Fits tx := Fits tx.op ∧ Fits tx.signature
  get_put tx h rest := by
    change (do
      return SignedTx.mk (← Binary.get) (← Binary.get) (← Binary.get) (← Binary.get)
        (← Binary.get) : Reader SignedTx)
      (put tx.op ++ put tx.accountNumber ++ put tx.sequence ++ put tx.pubKey ++
        put tx.signature ++ rest) = _
    simp only [List.append_assoc]
    rw [get_bind h.1, get_bind trivial, get_bind trivial, get_bind trivial, get_bind h.2]
    rfl

instance : LawfulBinary TxResponse where
  Fits r := Fits r.log
  get_put r h rest := by
    change (do
      return TxResponse.mk (← Binary.get) (← Binary.get) (← Binary.get) (← Binary.get) :
      Reader TxResponse) (put r.code ++ put r.log ++ put r.height ++ put r.executed ++ rest) = _
    simp only [List.append_assoc]
    rw [get_bind trivial, get_bind h, get_bind trivial, get_bind trivial]
    rfl

instance : LawfulBinary Genesis where
  Fits g := Fits g.attendees ∧ Fits g.prizes
  get_put g h rest := by
    change (do return Genesis.mk (← Binary.get) (← Binary.get) (← Binary.get) (← Binary.get) :
      Reader Genesis)
      (put g.keyService ++ put g.redeemService ++ put g.attendees ++ put g.prizes ++ rest) = _
    simp only [List.append_assoc]
    rw [get_bind trivial, get_bind trivial, get_bind h.1, get_bind h.2]
    rfl

instance : LawfulBinary LeaderboardEntry where
  Fits r := Fits r.name
  get_put r h rest := by
    change (do
      return LeaderboardEntry.mk (← Binary.get) (← Binary.get) (← Binary.get) (← Binary.get) :
      Reader LeaderboardEntry) (put r.address ++ put r.name ++ put r.rep ++ put r.tier ++ rest) = _
    simp only [List.append_assoc]
    rw [get_bind trivial, get_bind h, get_bind trivial, get_bind trivial]
    rfl

instance : LawfulBinary AccountInfo where
  Fits _ := True
  get_put i _ rest := by
    change (do return AccountInfo.mk (← Binary.get) (← Binary.get) : Reader AccountInfo)
      (put i.number ++ put i.sequence ++ rest) = _
    rw [List.append_assoc, get_bind trivial, get_bind trivial]
    rfl

instance : LawfulBinary ErrorCode where
  Fits _ := True
  get_put c _ rest := by
    have hindex : c.index < 8 := by cases c <;> decide
    have hread := getCase_putCase hindex (by decide) rest
    have hbind := Reader.bind_ok (f := fun index => (match index with
      | 0 => return .notAuthenticated
      | 1 => return .invalidMessage
      | 2 => return .attendeeNotFound
      | 3 => return .alreadyKeyed
      | 4 => return .ledgerRejected
      | 5 => return .ledgerUnavailable
      | 6 => return .busy
      | 7 => return .internalError : Reader ErrorCode)) hread
    refine hbind.trans ?_
    cases c <;> rfl

end LawfulBinary

/-- What the binary form of a type guarantees. -/
structure Binary.Delimits (α : Type) [Binary α] [LawfulBinary α] : Prop where
  /-- Whatever follows it, the binary form of a value is read as that value. -/
  whole : ∀ a : α, Fits a → ∀ rest, Binary.decode (put a ++ rest) = .ok a
  /-- A binary form that was cut off is not read: the bytes end too early. -/
  part : ∀ a : α, Fits a → ∀ b, b <+: put a → b ≠ put a →
    ∃ e : CodecError, e.endsEarly = true ∧ (Binary.decode b : Except CodecError α) = .error e

namespace Binary

/-- A type whose reader reads back and is steady has binary forms that say where they end. -/
theorem delimits (α : Type) [Binary α] [LawfulBinary α] [SteadyBinary α] : Delimits α where
  whole a h rest := by
    have hread := LawfulBinary.get_put a h rest
    simp only [Binary.decode, Reader.value, hread, Except.map]
  part a h b hb hne := by
    have hread := LawfulBinary.get_put a h []
    rw [List.append_nil] at hread
    obtain ⟨e, he, hfail⟩ := SteadyBinary.steady.fails_of_prefix hread hb hne
    refine ⟨e, he, ?_⟩
    simp only [Binary.decode, Reader.value, hfail, Except.map]

/-- The binary forms of all that the ledger stores, signs, answers and is founded on say where they
end. -/
theorem ledger_forms_delimit :
    Delimits Address ∧ Delimits PublicKey ∧ Delimits Commitment ∧ Delimits ScanId ∧
      Delimits Account ∧ Delimits Attendee ∧ Delimits Scan ∧ Delimits Prize ∧ Delimits Win ∧
      Delimits Operation ∧ Delimits SignedTx ∧ Delimits TxResponse ∧ Delimits Genesis ∧
      Delimits LeaderboardEntry ∧ Delimits AccountInfo ∧ Delimits ErrorCode :=
  ⟨delimits _, delimits _, delimits _, delimits _, delimits _, delimits _, delimits _, delimits _,
    delimits _, delimits _, delimits _, delimits _, delimits _, delimits _, delimits _,
    delimits _⟩

/-- A row of the leaderboard with an accent in its name is read back in front of other bytes, and
not at all when it was cut off inside that letter. -/
theorem ledger_forms_delimit_row :
    decode (put (⟨⟨.zero 20⟩, "René", 7, 1⟩ : LeaderboardEntry) ++ [0xC3, 0xA9]) =
        (.ok ⟨⟨.zero 20⟩, "René", 7, 1⟩ : Except CodecError LeaderboardEntry) ∧
      ∃ e : CodecError, e.endsEarly = true ∧
        (decode ((put (⟨⟨.zero 20⟩, "René", 7, 1⟩ : LeaderboardEntry)).take 60) :
          Except CodecError LeaderboardEntry) = .error e := by
  obtain ⟨-, -, -, -, -, -, -, -, -, -, -, -, -, hrow, -, -⟩ := ledger_forms_delimit
  have hfits : Fits (⟨⟨.zero 20⟩, "René", 7, 1⟩ : LeaderboardEntry) := by
    change (Bytes.ofText "René").length < UInt64.size
    decide
  have hlength : (put (⟨⟨.zero 20⟩, "René", 7, 1⟩ : LeaderboardEntry)).length = 70 := by
    decide +kernel
  have hcut : (put (⟨⟨.zero 20⟩, "René", 7, 1⟩ : LeaderboardEntry)).take 60 ≠
      put (⟨⟨.zero 20⟩, "René", 7, 1⟩ : LeaderboardEntry) := by
    intro h
    have hlengths := congrArg List.length h
    rw [List.length_take, hlength] at hlengths
    omega
  exact ⟨hrow.whole _ hfits _, hrow.part _ hfits _ (List.take_prefix _ _) hcut⟩

end Binary

end ConferenceLedger
