import ConferenceLedger.Ledger.Transaction
import ConferenceLedger.Proofs.Codec.Records

/-!
# What is signed tells the place

The bytes that are signed can be read back one part after another, since every part says by itself
where it ends. So equal bytes were signed for the same operation on the same chain, account and
sequence, and no signed bytes are the beginning of longer ones.
-/

namespace ConferenceLedger

section Signing

variable {chainId chainId' : String} {number number' sequence sequence' : UInt64}
  {op op' : Operation}

/-- Signed bytes that begin equal bytes were signed for the same operation at the same place, and
what follows them is equal. -/
theorem signBytes_append_inj (hchain : Fits chainId) (hop : Fits op) (hchain' : Fits chainId')
    (hop' : Fits op') {s t : Bytes}
    (h : signBytes chainId number sequence op ++ s = signBytes chainId' number' sequence' op' ++ t) :
    (chainId = chainId' ∧ number = number' ∧ sequence = sequence' ∧ op = op') ∧ s = t := by
  simp only [signBytes, List.append_assoc] at h
  obtain ⟨hname, h⟩ := LawfulBinary.put_append_inj hchain hchain' (List.append_cancel_left h)
  obtain ⟨hnumber, h⟩ := LawfulBinary.put_append_inj trivial trivial h
  obtain ⟨hsequence, h⟩ := LawfulBinary.put_append_inj trivial trivial h
  obtain ⟨hoperation, h⟩ := LawfulBinary.put_append_inj hop hop' h
  exact ⟨⟨hname, hnumber, hsequence, hoperation⟩, h⟩

/-- The bytes that are signed tell the chain, the account number, the sequence and the operation,
and none of them are a proper beginning of others. -/
theorem signBytes_tells_place (number sequence number' sequence' : UInt64) (hchain : Fits chainId)
    (hop : Fits op) (hchain' : Fits chainId') (hop' : Fits op') :
    (signBytes chainId number sequence op = signBytes chainId' number' sequence' op' ↔
      chainId = chainId' ∧ number = number' ∧ sequence = sequence' ∧ op = op') ∧
    (signBytes chainId number sequence op <+: signBytes chainId' number' sequence' op' →
      signBytes chainId number sequence op = signBytes chainId' number' sequence' op') := by
  have hbegins : signBytes chainId number sequence op <+:
        signBytes chainId' number' sequence' op' →
      chainId = chainId' ∧ number = number' ∧ sequence = sequence' ∧ op = op' := by
    rintro ⟨rest, hrest⟩
    rw [← List.append_nil (signBytes chainId' number' sequence' op')] at hrest
    exact (signBytes_append_inj hchain hop hchain' hop' hrest).1
  refine ⟨⟨?_, ?_⟩, ?_⟩
  · intro h
    exact hbegins (h ▸ List.prefix_rfl)
  · rintro ⟨rfl, rfl, rfl, rfl⟩
    rfl
  · intro h
    obtain ⟨rfl, rfl, rfl, rfl⟩ := hbegins h
    rfl

end Signing

/-- A scan that shares nothing and a redemption by the same signer for the same ticket, at the same
place, have different bytes to sign, and neither begin the other. -/
theorem signBytes_tells_place_scan_redeem :
    Fits "test-chain" ∧ Fits (Operation.scanQr ⟨.ofTicket "1", "2", ⟨[]⟩⟩) ∧
      Fits (Operation.redeem ⟨.ofTicket "1", "2"⟩) ∧
      ¬signBytes "test-chain" 2 0 (.scanQr ⟨.ofTicket "1", "2", ⟨[]⟩⟩) <+:
        signBytes "test-chain" 2 0 (.redeem ⟨.ofTicket "1", "2"⟩) ∧
      ¬signBytes "test-chain" 2 0 (.redeem ⟨.ofTicket "1", "2"⟩) <+:
        signBytes "test-chain" 2 0 (.scanQr ⟨.ofTicket "1", "2", ⟨[]⟩⟩) := by
  have hchain : Fits "test-chain" := by
    change (Bytes.ofText "test-chain").length < UInt64.size
    decide
  have hticket : Fits "2" := by
    change (Bytes.ofText "2").length < UInt64.size
    decide
  have hscan : Fits (Operation.scanQr ⟨.ofTicket "1", "2", ⟨[]⟩⟩) := by
    have hdata : Fits (⟨[]⟩ : Blob) := by
      change 2 * ([] : Bytes).length < UInt64.size
      decide
    exact ⟨hticket, hdata⟩
  have hredeem : Fits (Operation.redeem ⟨.ofTicket "1", "2"⟩) := hticket
  obtain ⟨hequal, hbegins⟩ := signBytes_tells_place 2 0 2 0 hchain hscan hchain hredeem
  obtain ⟨hequal', hbegins'⟩ := signBytes_tells_place 2 0 2 0 hchain hredeem hchain hscan
  refine ⟨hchain, hscan, hredeem, ?_, ?_⟩
  · intro h
    obtain ⟨-, -, -, hop⟩ := hequal.mp (hbegins h)
    cases hop
  · intro h
    obtain ⟨-, -, -, hop⟩ := hequal'.mp (hbegins' h)
    cases hop

end ConferenceLedger
