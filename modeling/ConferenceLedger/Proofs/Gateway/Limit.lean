import ConferenceLedger.Proofs.Gateway.Register
import Mathlib.Order.Lattice
import Mathlib.Order.MinMax

/-!
# How many clients are registered

The number of clients is looked at when a peer connects, and the peer becomes a client when its
greeting is done. What the limit bounds is so the clients at the time of a connection, and not those
that are still greeted then. If no two peers are greeted at once the clients keep within the limit.
Otherwise they exceed it, at most by one less than the number of peers that were greeted at once.
-/

namespace ConferenceLedger

/-- The greatest number of clients there can be with no more than so many peers greeted at once. -/
def ServerConfig.mostClients (config : ServerConfig) : Nat → Nat
  | 0 => 0
  | more + 1 => if config.maxConnections = 0 then 0 else config.maxConnections + more

/-- Peers that are greeted one at a time keep within the limit. -/
theorem ServerConfig.mostClients_one (config : ServerConfig) :
    config.mostClients 1 = config.maxConnections := by
  rw [mostClients]
  split_ifs with hnone
  · exact hnone.symm
  · rfl

namespace Server

variable {σ : Type}

/-- How many peers are clients or greeted. -/
def load (s : Server σ) : Nat := s.count + s.greeting.length

/-- There is at most one more client when a peer has registered its own. -/
theorem count_register_le (s : Server σ) (peer : Peer) (now : Nat) :
    (s.register peer now).count ≤ s.count + 1 := by
  rw [count, register, List.length_append, List.length_singleton]
  exact Nat.succ_le_succ (List.length_filter_le ..)

variable [LedgerClient σ]

/-- An event adds to the clients and the greeted only if it is a connection while the clients are
fewer than the limit, and then it adds one who is greeted. -/
theorem load_step (s : Server σ) (e : ServerEvent) :
    (s.step e).2.load ≤ s.load ∨
      s.count < s.config.maxConnections ∧ (s.step e).2.count = s.count ∧
        (s.step e).2.greeting.length = s.greeting.length + 1 := by
  cases e with
  | connect peer =>
    rw [step]
    split_ifs with hknown hroom
    · exact Or.inl le_rfl
    · rw [Bool.and_eq_true, decide_eq_true_eq] at hroom
      exact Or.inr ⟨hroom.2, rfl, List.length_append⟩
    · exact Or.inl le_rfl
  | greeted peer now =>
    left
    rw [step]
    split_ifs with hgreeting
    · -- the peer is one less of those who are greeted, and its client takes its place
      have hless : (s.greeting.filter (· ≠ peer)).length < s.greeting.length :=
        List.length_filter_lt_length_iff_exists.mpr
          ⟨peer, List.contains_iff_mem.mp hgreeting, by simp⟩
      have hmore := s.count_register_le peer now
      change (s.register peer now).count + (s.greeting.filter (· ≠ peer)).length ≤ s.load
      rw [load]
      omega
    · exact le_rfl
  | greetingFailed peer => exact Or.inl (Nat.add_le_add_left (List.length_filter_le ..) _)
  | text peer content now secret =>
    left
    rw [step_text]
    split_ifs
    · rw [answerText_eq]
      exact Nat.add_le_add_right (List.length_map ..).le _
    · exact le_rfl
  | gone peer | sweep now =>
    left
    rw [step]
    split_ifs
    · exact Nat.add_le_add_right (List.length_filter_le ..) _
    · exact le_rfl
  | leave peer | dismiss peer | heed peer =>
    left
    rw [step]
    split_ifs <;> exact le_rfl
  | stop | halt => exact Or.inl le_rfl

/-- The greatest number of peers that are greeted at once while events happen. -/
def peak (s : Server σ) : List ServerEvent → Nat
  | [] => s.greeting.length
  | e :: rest => max s.greeting.length ((s.step e).2.peak rest)

/-- The clients are as many as the limit, or more, all the while. -/
def StaysFull (s : Server σ) (es : List ServerEvent) : Prop :=
  ∀ n, s.config.maxConnections ≤ (s.run (es.take n)).2.count

/-- Those who are greeted at first count. -/
theorem greeting_le_peak (s : Server σ) (es : List ServerEvent) :
    s.greeting.length ≤ s.peak es := by
  cases es with
  | nil => exact le_rfl
  | cons e rest => exact le_max_left _ _

/-- What happens in two parts happens one after the other. -/
theorem run_append (s : Server σ) (es later : List ServerEvent) :
    (s.run (es ++ later)).2 = ((s.run es).2.run later).2 := by
  induction es generalizing s with
  | nil => rfl
  | cons e rest ih => exact ih (s.step e).2

/-- The peers that are greeted at once in two parts are those of the one or of the other. -/
theorem peak_append (s : Server σ) (es later : List ServerEvent) :
    s.peak (es ++ later) = max (s.peak es) ((s.run es).2.peak later) := by
  induction es generalizing s with
  | nil => exact (max_eq_right (s.greeting_le_peak later)).symm
  | cons e rest ih =>
    change max _ ((s.step e).2.peak (rest ++ later)) = _
    rw [ih, ← max_assoc]
    rfl

/-- The clients and the greeted stay as few as there can be with the peers greeted at once. -/
theorem load_run_le {s : Server σ} {es : List ServerEvent} {most : Nat}
    (hs : s.load ≤ s.config.mostClients most) (hpeak : s.peak es ≤ most) :
    (s.run es).2.load ≤ s.config.mostClients most := by
  induction es generalizing s with
  | nil => exact hs
  | cons e rest ih =>
    have hrest : (s.step e).2.peak rest ≤ most := (le_max_right _ _).trans hpeak
    have hgreeting := ((s.step e).2.greeting_le_peak rest).trans hrest
    have hnext : (s.step e).2.load ≤ s.config.mostClients most := by
      rcases s.load_step e with hle | ⟨hroom, hcount, hmore⟩
      · exact hle.trans hs
      · rw [load, hcount, hmore]
        cases most with
        | zero => omega
        | succ more =>
          rw [ServerConfig.mostClients, if_neg (by omega)]
          omega
    rw [← (s.settings_step e).1] at hnext ⊢
    exact ih hnext hrest

/-- As long as the clients are as many as the limit, nobody adds to the clients and the greeted. -/
theorem load_run_le_of_staysFull {s : Server σ} {es : List ServerEvent} (h : s.StaysFull es) :
    (s.run es).2.load ≤ s.load := by
  induction es generalizing s with
  | nil => exact le_rfl
  | cons e rest ih =>
    have hfull : s.config.maxConnections ≤ s.count := h 0
    have hrest : (s.step e).2.StaysFull rest := by
      intro n
      rw [(s.settings_step e).1]
      exact h (n + 1)
    have hfirst : (s.step e).2.load ≤ s.load := by
      rcases s.load_step e with hle | ⟨hroom, -, -⟩
      · exact hle
      · exact absurd hroom hfull.not_gt
    exact (ih hrest).trans hfirst

/-- A remote address for every number. Its groups have sixteen bits if the number has sixty-four. -/
def addressOf (n : Nat) : SocketAddress :=
  .v6 [0, 0, 0, 0, n / 65536 / 65536 / 65536, n / 65536 / 65536 % 65536, n / 65536 % 65536,
    n % 65536] 0 49152

/-- Different numbers have different addresses. -/
theorem addressOf_injective : Function.Injective addressOf := by
  intro m n heq
  simp only [addressOf, SocketAddress.v6.injEq, List.cons.injEq] at heq
  omega

/-- The peers of so many addresses, the first of each. -/
def callers (numbers : List Nat) : List Peer := numbers.map fun n => ⟨addressOf n, 0⟩

/-- Peers of different numbers come from different addresses. -/
theorem nodup_callers {numbers : List Nat} (h : numbers.Nodup) :
    ((callers numbers).map (·.address)).Nodup := by
  rw [callers, List.map_map]
  exact h.map addressOf_injective

section Rush

variable (config : ServerConfig) (auth : AuthConfig) (service : KeyService σ)
  {ps gs qs : List Peer} {n : Nat}

/-- A server with the clients of peers that were registered at the time zero, while others are
greeted. -/
def hosting (ps gs : List Peer) : Server σ :=
  { new config auth service with
    greeting := gs, served := ps, clients := ps.map fun p => (p.address, ⟨p, none, 0⟩) }

/-- All peers connect before the first of them is greeted. -/
def rush (ps : List Peer) : List ServerEvent :=
  ps.map .connect ++ ps.map (.greeted · 0)

/-- Peers rush in one at a time. -/
def queue : Nat → List ServerEvent
  | 0 => []
  | n + 1 => queue n ++ rush (callers [n])

/-- Below the limit a peer that connects is greeted. -/
theorem step_connect_hosting (hroom : ps.length < config.maxConnections) {gs : List Peer} {p : Peer}
    (hfresh : p ∉ gs ++ ps) :
    (hosting config auth service ps gs).step (.connect p) =
      ([], hosting config auth service ps (gs ++ [p])) := by
  have hnew : (hosting config auth service ps gs).knows p = false := by
    simpa [knows, hosting, new] using hfresh
  have htaken : ((hosting config auth service ps gs).listening &&
      decide ((hosting config auth service ps gs).count < config.maxConnections)) = true := by
    simpa [hosting, new, count] using hroom
  rw [step, hnew, if_neg Bool.false_ne_true]
  exact if_pos htaken

/-- A peer is registered when its greeting is done. -/
theorem step_greeted_hosting {p : Peer} (hps : p.address ∉ ps.map (·.address)) (hgs : p ∉ gs) :
    (hosting config auth service ps (p :: gs)).step (.greeted p 0) =
      ([], hosting config auth service (ps ++ [p]) gs) := by
  have hgreeting : (p :: gs).filter (· ≠ p) = gs := by
    rw [List.filter_cons_of_neg (by simp)]
    exact List.filter_eq_self.mpr fun q hq => decide_eq_true fun heq => hgs (heq ▸ hq)
  have hclients : (hosting config auth service ps (p :: gs)).unregister p.address =
      hosting config auth service ps (p :: gs) := by
    unfold unregister
    congr 1
    refine List.filter_eq_self.mpr fun x hx => decide_eq_true ?_
    obtain ⟨q, hq, rfl⟩ := List.mem_map.mp hx
    exact fun heq => hps (List.mem_map.mpr ⟨q, hq, heq⟩)
  have hgreeted : (hosting config auth service ps (p :: gs)).greeting.contains p = true :=
    List.contains_iff_mem.mpr List.mem_cons_self
  rw [step, if_pos hgreeted, register, hclients]
  unfold hosting
  rw [List.map_append, hgreeting]
  rfl

/-- All who connect below the limit are greeted at once. -/
theorem run_connects (hroom : ps.length < config.maxConnections) (hnodup : (gs ++ ps ++ qs).Nodup) :
    ((hosting config auth service ps gs).run (qs.map .connect)).2 =
        hosting config auth service ps (gs ++ qs) ∧
      (hosting config auth service ps gs).peak (qs.map .connect) = (gs ++ qs).length := by
  induction qs generalizing gs with
  | nil => exact ⟨by rw [List.append_nil]; rfl, by rw [List.append_nil]; rfl⟩
  | cons q qs ih =>
    have hfresh : q ∉ gs ++ ps := fun hmem =>
      (List.nodup_append.mp hnodup).2.2 q hmem q List.mem_cons_self rfl
    have hrest : (gs ++ [q] ++ ps ++ qs).Nodup := by
      refine (List.Perm.nodup_iff ?_).mp hnodup
      rw [List.append_assoc, List.append_assoc, List.append_assoc]
      exact List.perm_middle.append_left gs
    have hstep := step_connect_hosting config auth service hroom hfresh
    obtain ⟨hrun, hpeak⟩ := ih hrest
    rw [List.append_assoc, List.singleton_append] at hrun hpeak
    constructor
    · rw [List.map_cons, run, hstep]
      exact hrun
    · rw [List.map_cons, peak, hstep, hpeak]
      exact max_eq_right (by rw [List.length_append]; exact Nat.le_add_right ..)

/-- All who are greeted are registered, whatever the limit. -/
theorem run_greetings (hnodup : ((ps ++ gs).map (·.address)).Nodup) :
    ((hosting config auth service ps gs).run (gs.map (.greeted · 0))).2 =
        hosting config auth service (ps ++ gs) [] ∧
      (hosting config auth service ps gs).peak (gs.map (.greeted · 0)) = gs.length := by
  induction gs generalizing ps with
  | nil => exact ⟨by rw [List.append_nil]; rfl, rfl⟩
  | cons g gs ih =>
    have happend : ps ++ g :: gs = ps ++ [g] ++ gs := by
      rw [List.append_assoc, List.singleton_append]
    have hparts := hnodup
    rw [List.map_append, List.map_cons] at hparts
    obtain ⟨-, hgreeted, hapart⟩ := List.nodup_append.mp hparts
    have hgs : g ∉ gs := fun hmem =>
      (List.nodup_cons.mp hgreeted).1 (List.mem_map.mpr ⟨g, hmem, rfl⟩)
    have hps : g.address ∉ ps.map (·.address) := fun hmem =>
      hapart g.address hmem g.address List.mem_cons_self rfl
    have hstep := step_greeted_hosting config auth service hps hgs
    rw [happend] at hnodup ⊢
    obtain ⟨hrun, hpeak⟩ := ih hnodup
    constructor
    · rw [List.map_cons, run, hstep]
      exact hrun
    · rw [List.map_cons, peak, hstep, hpeak]
      exact max_eq_left (Nat.le_succ _)

/-- All who rush in below the limit are registered. -/
theorem run_rush (hroom : ps.length < config.maxConnections)
    (hnodup : ((ps ++ qs).map (·.address)).Nodup) :
    ((hosting config auth service ps []).run (rush qs)).2 =
        hosting config auth service (ps ++ qs) [] ∧
      (hosting config auth service ps []).peak (rush qs) = qs.length := by
  have hpeers : ([] ++ ps ++ qs).Nodup := hnodup.of_map
  obtain ⟨hconnected, hconnects⟩ := run_connects config auth service hroom hpeers
  obtain ⟨hgreeted, hgreetings⟩ := run_greetings config auth service hnodup
  rw [List.nil_append] at hconnected hconnects
  constructor
  · rw [rush, run_append, hconnected, hgreeted]
  · rw [rush, peak_append, hconnected, hconnects, hgreetings, max_self]

/-- Two peers that connect before either is greeted are both registered where one is allowed. -/
example : ((new { ServerConfig.default with maxConnections := 1 } auth service).run
    (rush (callers [0, 1]))).2.count = 2 := rfl

/-- As many as are allowed are registered if they come in one at a time. -/
theorem run_queue (hn : n ≤ config.maxConnections) :
    ((new config auth service).run (queue n)).2 =
        hosting config auth service (callers (List.range n)) [] ∧
      (new config auth service).peak (queue n) ≤ 1 := by
  induction n with
  | zero => exact ⟨rfl, Nat.zero_le 1⟩
  | succ n ih =>
    obtain ⟨hbefore, hone⟩ := ih (Nat.le_of_succ_le hn)
    have hroom : (callers (List.range n)).length < config.maxConnections := by
      rw [callers, List.length_map, List.length_range]
      exact hn
    have hall : callers (List.range n) ++ callers [n] = callers (List.range (n + 1)) := by
      rw [List.range_succ, callers, callers, callers, List.map_append]
    obtain ⟨hrun, hpeak⟩ := run_rush config auth service hroom
      (hall ▸ nodup_callers List.nodup_range)
    constructor
    · rw [queue, run_append, hbefore, hrun, hall]
    · rw [queue, peak_append, hbefore, hpeak]
      exact max_le hone le_rfl

/-- Of the last free place as many make use as are greeted at once. -/
theorem exists_run_count {most : Nat} (hn : n ≤ config.mostClients most) :
    ∃ es, (new config auth service).peak es ≤ most ∧
      ((new config auth service).run es).2.count = n := by
  cases most with
  | zero =>
    cases Nat.le_zero.mp hn
    exact ⟨[], le_rfl, rfl⟩
  | succ more =>
    rw [ServerConfig.mostClients] at hn
    split_ifs at hn with hnone
    · cases Nat.le_zero.mp hn
      exact ⟨[], Nat.zero_le _, rfl⟩
    · -- all but one place are taken one at a time, and who is left rushes in
      obtain ⟨first, hfirst, rest, hrest, rfl⟩ :
          ∃ first < config.maxConnections, ∃ rest ≤ more + 1, n = first + rest :=
        ⟨min n (config.maxConnections - 1), by omega,
          n - min n (config.maxConnections - 1), by omega, by omega⟩
      have hroom : (callers (List.range first)).length < config.maxConnections := by
        rw [callers, List.length_map, List.length_range]
        exact hfirst
      have hall : callers (List.range first) ++ callers (List.range' first rest) =
          callers (List.range (first + rest)) := by
        rw [callers, callers, callers, ← List.map_append, List.range_eq_range',
          List.range_eq_range', ← @List.range'_append_1 0 first rest, Nat.zero_add]
      obtain ⟨hbefore, hone⟩ := run_queue config auth service hfirst.le
      obtain ⟨hrun, hpeak⟩ := run_rush config auth service hroom
        (hall ▸ nodup_callers List.nodup_range)
      refine ⟨queue first ++ rush (callers (List.range' first rest)), ?_, ?_⟩
      · rw [peak_append, hbefore, hpeak, callers, List.length_map, List.length_range']
        omega
      · rw [run_append, hbefore, hrun, hall]
        simp [hosting, count, callers]

end Rush

/-- What the limit does for the number of clients. -/
structure Limits (config : ServerConfig) (auth : AuthConfig) (service : KeyService σ) : Prop where
  /-- If no two peers are ever greeted at once the clients keep within the limit. -/
  kept : ∀ es, (new config auth service).peak es ≤ 1 →
    ((new config auth service).run es).2.count ≤ config.maxConnections
  /-- The clients and the greeted together exceed the limit at most by one less than were greeted
  at once. -/
  bounded : ∀ es, ((new config auth service).run es).2.load ≤
    config.mostClients ((new config auth service).peak es)
  /-- Any number of clients that leaves is reached with no more greeted at once. -/
  attained : ∀ most, ∀ n ≤ config.mostClients most, ∃ es,
    (new config auth service).peak es ≤ most ∧ ((new config auth service).run es).2.count = n
  /-- While the clients are as many as the limit or more, no more come to be registered than were
  registered or greeted before. -/
  full : ∀ es later, ((new config auth service).run es).2.StaysFull later →
    ((new config auth service).run (es ++ later)).2.count ≤
      ((new config auth service).run es).2.load

/-- The limit bounds the clients that a server has at any time by the peers that were greeted at
once, and by nothing less. -/
theorem limitsClients (config : ServerConfig) (auth : AuthConfig) (service : KeyService σ) :
    Limits config auth service := by
  have hbounded : ∀ most es, (new config auth service).peak es ≤ most →
      ((new config auth service).run es).2.load ≤ config.mostClients most := fun most es hpeak =>
    load_run_le (s := new config auth service) (Nat.zero_le _) hpeak
  constructor
  · intro es hpeak
    rw [← config.mostClients_one]
    exact (Nat.le_add_right ..).trans (hbounded 1 es hpeak)
  · exact fun es => hbounded _ es le_rfl
  · exact fun most n hn => exists_run_count config auth service hn
  · intro es later hfull
    rw [run_append]
    exact (Nat.le_add_right ..).trans (load_run_le_of_staysFull hfull)

end Server

end ConferenceLedger
