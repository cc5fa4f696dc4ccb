import ConferenceLedger.Proofs.Ledger.Delivery
import ConferenceLedger.Relay.Basic
import Mathlib.Data.List.Basic

/-!
# How a relay begins and how it settles an answer

A relay begins with what the ledger says of its account. Only the answer that a transaction carried
the wrong sequence has it ask the ledger again; any other answer ends the call.
-/

namespace ConferenceLedger

/-- A look at an account of a ledger at hand leaves the ledger. -/
theorem LocalLedger.client_account (a : Address) (l : LocalLedger) :
    LedgerClient.account a l = (l.account a, l) := rfl

/-- The account that a ledger at hand tells of. -/
theorem LocalLedger.account_eq {l : LocalLedger} (hs : l.chain.store.Placed) (a : Address) :
    l.account a = match l.chain.store.account a with
      | some x => .ok ⟨x.number, x.sequence⟩
      | none => .error (.accountNotFound a) := by
  rw [account, Chain.account_eq hs]
  cases l.chain.store.account a <;> rfl

namespace Relay

/-- A relay starts with what the ledger says of the account of its key. -/
theorem connect_eq_ok {σ : Type} [LedgerClient σ] {key : SigningKey} {chainId : String}
    {lockTimeout : Option Nat} {ledger ledger' : σ} {r : Relay}
    (h : connect key chainId lockTimeout ledger = (.ok r, ledger')) :
    ∃ info, LedgerClient.account (Address.ofPublicKey key.publicKey) ledger = (.ok info, ledger') ∧
      r = ⟨key, key.publicKey, rfl, chainId, info.number, info.sequence, lockTimeout⟩ := by
  unfold connect at h
  dsimp only at h
  split at h
  · cases h
  · next info found haccount =>
    cases h
    exact ⟨info, haccount, rfl⟩

/-- What a relay does with what comes back for a transaction. -/
inductive Settles (r : Relay) : Except ClientError TxResponse → Settlement → Prop where
  /-- The transaction or its answer was lost. The call fails, and the sequence stays. -/
  | failed (e : ClientError) : Settles r (.error e) (.ended (.error (.submission e)) r.sequence)
  /-- The sequence was wrong, and the relay asks for the right one. -/
  | stale {response : TxResponse} (hcode : response.code = LedgerError.invalidSequenceCode) :
    Settles r (.ok response) (.resync (.failedTx response.code response.log))
  /-- Any other answer ends the call, which succeeds if the transaction did. The sequence goes on if
  the transaction was executed. -/
  | answered {response : TxResponse} {result : Except RelayError Unit}
    (hcode : response.code ≠ LedgerError.invalidSequenceCode)
    (hok : result = .ok () ↔ response.code = 0)
    (herror : ∀ error, result = .error error →
      error = .alreadyKeyed ∨ error = .failedTx response.code response.log) :
    Settles r (.ok response)
      (.ended result (if response.executed then r.sequence + 1 else r.sequence))

/-- Everything that comes back is settled in one of these ways. -/
theorem settles (r : Relay) (answer : Except ClientError TxResponse) :
    r.Settles answer (r.settle answer) := by
  cases answer with
  | error e => exact .failed e
  | ok response =>
    rw [settle]
    by_cases hcode : response.code = LedgerError.invalidSequenceCode
    · rw [if_pos hcode]
      exact .stale hcode
    · rw [if_neg hcode]
      dsimp only
      by_cases hok : response.isOk = true
      · have hzero : response.code = 0 := of_decide_eq_true hok
        rw [if_pos hok]
        exact .answered hcode ⟨fun _ => hzero, fun _ => rfl⟩ nofun
      · have hzero : response.code ≠ 0 := fun hzero => hok (decide_eq_true hzero)
        rw [if_neg hok]
        by_cases hkeyed : response.code = LedgerError.attendeeKeyedCode
        · rw [if_pos hkeyed]
          refine .answered hcode ⟨nofun, fun h => absurd h hzero⟩ ?_
          exact fun error h => Or.inl (Except.error.inj h).symm
        · rw [if_neg hkeyed]
          refine .answered hcode ⟨nofun, fun h => absurd h hzero⟩ ?_
          exact fun error h => Or.inr (Except.error.inj h).symm

end Relay

namespace SmallLedger

/-- The key of the keying service, with its secret. -/
def signer : SigningKey := ⟨⟨List.replicate 32 1, rfl⟩⟩

/-- The relay of the keying service. -/
def relay : Relay := ⟨signer, signer.publicKey, rfl, "test-chain", 0, 0, some 5⟩

/-- The account of the keying service is found at the start. -/
theorem account_signer : LocalLedger.account (.ofPublicKey signer.publicKey) ⟨chain, 0⟩ =
    .ok ⟨0, 0⟩ := by
  decide +kernel

/-- The relay is what comes of connecting to the small ledger. -/
theorem connect_eq : Relay.connect signer "test-chain" (some 5) (⟨chain, 0⟩ : LocalLedger) =
    (.ok relay, ⟨chain, 0⟩) := by
  rw [Relay.connect, LocalLedger.client_account, account_signer]
  rfl

end SmallLedger

end ConferenceLedger
