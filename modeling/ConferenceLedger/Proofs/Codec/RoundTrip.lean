import ConferenceLedger.Codec.Basic
import ConferenceLedger.Proofs.Text.Hex

/-!
# Reading back binary forms

A value is read back from the front of any bytes that begin with its binary form, and what
follows is left. The only condition is that the lengths in it fit the eight bytes they are
written in, which no text, list or byte string in a memory fails to do.
-/

namespace ConferenceLedger

/-- A type whose values are read back from their binary forms. -/
class LawfulBinary (α : Type) [Binary α] where
  /-- Whether every length in a value fits the eight bytes it is written in. -/
  Fits : α → Prop
  /-- A value that fits is read back, and what follows is left. -/
  get_put (a : α) (h : Fits a) (rest : Bytes) : (Binary.get : Reader α) (put a ++ rest) = .ok (a, rest)

export LawfulBinary (Fits)

namespace Reader

variable {α β : Type}

/-- Reading goes on with what the first reader left. -/
theorem bind_ok {r : Reader α} {f : α → Reader β} {b rest : Bytes} {a : α}
    (h : r b = .ok (a, rest)) : (r >>= f) b = f a rest := by
  change (r b >>= fun p => f p.1 p.2) = _
  rw [h]
  rfl

/-- Reading in sequence succeeds if both readers do, the second on what the first left. -/
theorem bind_eq_ok {r : Reader α} {f : α → Reader β} {b rest : Bytes} {c : β}
    (h : (r >>= f) b = .ok (c, rest)) : ∃ a left, r b = .ok (a, left) ∧ f a left = .ok (c, rest) := by
  change (r b >>= fun p => f p.1 p.2) = _ at h
  cases hr : r b with
  | error e =>
    rw [hr] at h
    cases h
  | ok p =>
    rw [hr] at h
    exact ⟨p.1, p.2, rfl, h⟩

/-- The value of a byte string is what is read from its front. -/
theorem value_eq_ok {r : Reader α} {b : Bytes} {a : α} (h : r.value b = .ok a) :
    ∃ rest, r b = .ok (a, rest) := by
  unfold value at h
  cases hr : r b with
  | error e =>
    rw [hr] at h
    cases h
  | ok p =>
    rw [hr] at h
    cases h
    exact ⟨p.2, rfl⟩

/-- As many bytes as are asked for are taken. -/
theorem take_append (b rest : Bytes) (tooFew : CodecError) :
    take b.length tooFew (b ++ rest) = .ok (b, rest) := by
  have hle : ¬(b ++ rest).length < b.length := by
    rw [List.length_append]
    omega
  simp only [take, if_neg hle, List.take_left, List.drop_left]

/-- A number that fits the width is read back. -/
theorem natLE_ofNatLE {width n : Nat} (h : n < Nat.pow 256 width) (rest : Bytes) :
    natLE width (Bytes.ofNatLE width n ++ rest) = .ok (n, rest) := by
  have ht := take_append (Bytes.ofNatLE width n) rest .cut
  rw [Bytes.length_ofNatLE] at ht
  rw [natLE, bind_ok ht, Bytes.toNatLE_ofNatLE width n h]
  rfl

end Reader

/-- As many digits say a number below the power of their base. -/
theorem Bytes.toNatLE_lt (b : Bytes) : toNatLE b < 256 ^ b.length := by
  induction b with
  | nil => decide
  | cons d rest ih =>
    have hd := d.toNat_lt
    rw [toNatLE, List.length_cons, Nat.pow_succ]
    omega

/-- What is taken has the length that was asked for. -/
theorem Reader.length_of_take {n : Nat} {tooFew : CodecError} {b taken rest : Bytes}
    (h : Reader.take n tooFew b = .ok (taken, rest)) : taken.length = n := by
  unfold Reader.take at h
  split_ifs at h with hfew
  cases h
  rw [List.length_take]
  omega

namespace LawfulBinary

variable {α β : Type} [Binary α] [LawfulBinary α]

/-- Reading goes on behind a value that fits. -/
theorem get_bind {a : α} (h : Fits a) (f : α → Reader β) (rest : Bytes) :
    ((Binary.get : Reader α) >>= f) (put a ++ rest) = f a rest :=
  Reader.bind_ok (get_put a h rest)

/-- A value that fits is the value of its binary form. -/
theorem decode_put {a : α} (h : Fits a) : Binary.decode (put a) = .ok a := by
  have hget := get_put a h []
  rw [List.append_nil] at hget
  simp only [Binary.decode, Reader.value, hget, Except.map]

/-- Where two values that fit begin equal bytes, they are equal, and so is what follows them. -/
theorem put_append_inj {a b : α} (ha : Fits a) (hb : Fits b) {s t : Bytes}
    (h : put a ++ s = put b ++ t) : a = b ∧ s = t := by
  have hread := get_put a ha s
  rw [h, get_put b hb t] at hread
  cases hread
  exact ⟨rfl, rfl⟩

instance : LawfulBinary UInt8 where
  Fits _ := True
  get_put n _ rest := by
    have hn := n.toNat_lt
    have hread : Reader.natLE 1 (n :: rest) = .ok (n.toNat, rest) := by
      have hb : Bytes.ofNatLE 1 n.toNat = [n] := by simp [Bytes.ofNatLE]
      have hlt : n.toNat < Nat.pow 256 1 := hn
      have h := Reader.natLE_ofNatLE hlt rest
      rwa [hb] at h
    change (Reader.natLE 1 >>= fun k => pure (UInt8.ofNat k)) (n :: rest) = _
    rw [Reader.bind_ok hread, UInt8.ofNat_toNat]
    rfl

instance : LawfulBinary UInt32 where
  Fits _ := True
  get_put n _ rest := by
    have hlt : n.toNat < Nat.pow 256 4 := n.toNat_lt
    change (Reader.natLE 4 >>= fun k => pure (UInt32.ofNat k)) (Bytes.ofNatLE 4 n.toNat ++ rest) = _
    rw [Reader.bind_ok (Reader.natLE_ofNatLE hlt rest), UInt32.ofNat_toNat]
    rfl

instance : LawfulBinary UInt64 where
  Fits _ := True
  get_put n _ rest := by
    have hlt : n.toNat < Nat.pow 256 8 := n.toNat_lt
    change (Reader.natLE 8 >>= fun k => pure (UInt64.ofNat k)) (Bytes.ofNatLE 8 n.toNat ++ rest) = _
    rw [Reader.bind_ok (Reader.natLE_ofNatLE hlt rest), UInt64.ofNat_toNat]
    rfl

instance : LawfulBinary Int64 where
  Fits _ := True
  get_put n _ rest := by
    have hlt : n.toUInt64.toNat < Nat.pow 256 8 := n.toUInt64.toNat_lt
    change (Reader.natLE 8 >>= fun k => pure (UInt64.ofNat k).toInt64)
      (Bytes.ofNatLE 8 n.toUInt64.toNat ++ rest) = _
    rw [Reader.bind_ok (Reader.natLE_ofNatLE hlt rest), UInt64.ofNat_toNat, Int64.toInt64_toUInt64]
    rfl

instance : LawfulBinary Bool where
  Fits _ := True
  get_put b _ rest := by
    have hread := get_bind (a := if b then (1 : UInt8) else 0) trivial
      (fun n => if n = 0 then pure false else if n = 1 then pure true
        else (throw (.badBool n) : Reader Bool)) rest
    change ((Binary.get : Reader UInt8) >>= _) (put (if b then (1 : UInt8) else 0) ++ rest) = _
    rw [hread]
    cases b <;> rfl

instance : LawfulBinary String where
  Fits s := (Bytes.ofText s).length < UInt64.size
  get_put s h rest := by
    have hlt : (Bytes.ofText s).length < Nat.pow 256 8 := h
    change (Reader.natLE 8 >>= fun length => Reader.take length .short >>= fun b =>
      match Utf8.decode b with
      | .ok s => (pure s : Reader String)
      | .error fault => throw (.notText fault))
        (Bytes.ofNatLE 8 (Bytes.ofText s).length ++ Bytes.ofText s ++ rest) = _
    rw [List.append_assoc, Reader.bind_ok (Reader.natLE_ofNatLE hlt _),
      Reader.bind_ok (Reader.take_append _ _ _), Utf8.decode_ofText]
    rfl

/-- A text that is read fits, because its length was read. -/
theorem fits_of_get_text {b rest : Bytes} {s : String}
    (h : (Binary.get : Reader String) b = .ok (s, rest)) : Fits s := by
  obtain ⟨n, left, hlength, htext⟩ := Reader.bind_eq_ok h
  obtain ⟨digits, left', hdigits, hn⟩ := Reader.bind_eq_ok hlength
  obtain ⟨taken, left'', htaken, hread⟩ := Reader.bind_eq_ok htext
  cases hn
  have hbound := Bytes.toNatLE_lt digits
  rw [Reader.length_of_take hdigits] at hbound
  cases hdecode : Utf8.decode taken with
  | error e =>
    rw [hdecode] at hread
    cases hread
  | ok t =>
    rw [hdecode] at hread
    cases hread
    have hle := Utf8.length_ofText_le hdecode
    rw [Reader.length_of_take htaken] at hle
    exact Nat.lt_of_le_of_lt hle hbound

instance : LawfulBinary (Option α) where
  Fits o := ∀ a, o = some a → Fits a
  get_put o h rest := by
    change ((Binary.get : Reader UInt8) >>= fun n =>
      if n = 0 then (pure none : Reader (Option α))
      else if n = 1 then (Binary.get >>= fun a => pure (some a))
      else throw (.badOption n)) _ = _
    cases o with
    | none => exact get_bind (a := (0 : UInt8)) trivial _ rest
    | some a =>
      have htag := get_bind (a := (1 : UInt8)) trivial (fun n =>
        if n = 0 then (pure none : Reader (Option α))
        else if n = 1 then (Binary.get >>= fun a => pure (some a))
        else throw (.badOption n)) (put a ++ rest)
      exact htag.trans (get_bind (h a rfl) (fun a => (pure (some a) : Reader (Option α))) rest)

/-- Values that fit are read back one after another. -/
theorem times_get {as : List α} (h : ∀ a ∈ as, Fits a) (rest : Bytes) :
    Reader.times (Binary.get : Reader α) as.length (as.flatMap put ++ rest) = .ok (as, rest) := by
  induction as with
  | nil => rfl
  | cons a as ih =>
    have ha : Fits a := h a List.mem_cons_self
    have hrest := ih fun b hb => h b (List.mem_cons_of_mem a hb)
    rw [List.flatMap_cons, List.append_assoc, List.length_cons, Reader.times, get_bind ha,
      Reader.bind_ok hrest]
    rfl

instance : LawfulBinary (List α) where
  Fits as := as.length < UInt64.size ∧ ∀ a ∈ as, Fits a
  get_put as h rest := by
    have hlt : as.length < Nat.pow 256 8 := h.1
    change (Reader.natLE 8 >>= fun count => Reader.times (Binary.get : Reader α) count)
      (Bytes.ofNatLE 8 as.length ++ as.flatMap put ++ rest) = _
    rw [List.append_assoc, Reader.bind_ok (Reader.natLE_ofNatLE hlt _), times_get h.2]

/-- The hexadecimal text of a byte string fits if the byte string is less than half as long as
the longest text. -/
theorem fits_encode {b : Bytes} (h : 2 * b.length < UInt64.size) : Fits (Hex.encode b) := by
  change (Bytes.ofText (Hex.encode b)).length < UInt64.size
  rwa [Hex.length_ofText_encode]

instance {n : Nat} : LawfulBinary (Octets n) where
  Fits _ := 2 * n < UInt64.size
  get_put o h rest := by
    have hfits : Fits (Hex.encode o.bytes) := fits_encode (by rwa [o.length_bytes])
    change ((Binary.get : Reader String) >>= fun s =>
      match Octets.ofHex n s with
      | .ok o => (pure o : Reader (Octets n))
      | .error error => throw (.badIdentifier error)) (put (Hex.encode o.bytes) ++ rest) = _
    rw [get_bind hfits, Octets.ofHex_encode]
    rfl

instance : LawfulBinary Blob where
  Fits b := 2 * b.bytes.length < UInt64.size
  get_put b h rest := by
    change ((Binary.get : Reader String) >>= fun s =>
      match Hex.decode s with
      | .ok b => (pure ⟨b⟩ : Reader Blob)
      | .error error => throw (.badDigit error)) (put (Hex.encode b.bytes) ++ rest) = _
    rw [get_bind (fits_encode h), Hex.decode_encode]
    rfl

end LawfulBinary

end ConferenceLedger
