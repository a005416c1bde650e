import Sponge.Lib.Except
import Sponge.Lib.Reach
import Sponge.Socket.FileDescriptor

/-!
# Socket/EventLoop — callbacks for descriptors that are ready

`eventloop.cc`, `eventloop.hh`.  A loop holds rules in the order in which they were added; here they
have names, and `rule` says what a name stands for.  A pass of `wait_next_event` first asks each
rule for its interest, then polls, and then calls back in the order of the rules: a callback runs on
what the callbacks before it have left, and its interest is not asked for again.

So what a callback may rely on is what its own interest said and no other rule takes back.  `Safe`
puts that as conditions on single rules, and `Safe.waitNextEvent` says what they give for a pass.
A rule is cancelled at most once and is not called after that (`EventLoop.rule_lifecycle`).
-/

namespace EventLoop

inductive Direction
  | In
  | Out
  deriving DecidableEq, Repr

/-- **A rule**, over a state of type `σ` that its functions share.  A callback makes system calls,
which are answered by a `κ`. -/
structure Rule (σ κ : Type) where
  fd : σ → FDWrapper
  direction : Direction
  callback : κ → σ → Except Exn σ
  interest : σ → Bool := fun _ => true
  cancel : σ → σ := id

inductive Result
  | success
  | timeout
  | exit
  deriving DecidableEq, Repr

/-- What `poll(2)` reports for a descriptor; `error` is `POLLERR | POLLNVAL`. -/
structure Revents where
  pollIn : Bool := false
  pollOut : Bool := false
  error : Bool := false
  hup : Bool := false
  deriving DecidableEq, Repr

/-- The answer of `poll(2)`: nothing in time, a signal, another error, or a report for each of the
descriptors. -/
inductive Poll
  | timeout
  | interrupted
  | failed
  | ready (revents : ℕ → Revents)

/-- `revents & events`. -/
def Revents.meets (r : Revents) : Option Direction → Bool
  | none => false
  | some .In => r.pollIn
  | some .Out => r.pollOut

/-- One call of a function of a rule. -/
inductive RuleCall (ι κ : Type)
  | callback (name : ι) (answer : κ)
  | cancel (name : ι)
  deriving DecidableEq, Repr

/-- What a pass leaves: the rules that are not cancelled, the state, and the calls that it made. -/
structure Pass (σ ι κ : Type) where
  rules : List ι
  state : σ
  calls : List (RuleCall ι κ) := []

section Model

variable {σ ι κ : Type} (rule : ι → Rule σ κ)

/-- `service_count`. -/
def Rule.serviceCount (r : Rule σ κ) (s : σ) : UInt32 :=
  match r.direction with
  | .In => (r.fd s).readCount
  | .Out => (r.fd s).writeCount

/-- No more can be read or written: the descriptor is at the end of its input, or closed. -/
def Rule.gone (r : Rule σ κ) (s : σ) : Bool :=
  r.direction == .In && (r.fd s).eof || (r.fd s).closed

/-- The first loop of `wait_next_event`, with the `events` of the `pollfds` that it sets up. -/
def arm : List ι → σ → List (Option Direction) × Pass σ ι κ
  | [], s => ([], { rules := [], state := s })
  | i :: rules, s =>
    if (rule i).gone s then
      let (pollfds, p) := arm rules ((rule i).cancel s)
      (pollfds, { p with calls := .cancel i :: p.calls })
    else
      let events := if (rule i).interest s then some (rule i).direction else none
      let (pollfds, p) := arm rules s
      (events :: pollfds, { p with rules := i :: p.rules })

/-- The exception for a descriptor in error. -/
def polledError : Exn := .runtimeError "EventLoop: error on polled file descriptor"

/-- The exception for a callback that has done nothing and wants to be called again. -/
def busyWait : Exn :=
  .runtimeError ("EventLoop: busy wait detected: callback did not read/write fd " ++
    "and is still interested")

/-- The second loop of `wait_next_event`.  `idx` counts the rules that are cancelled in it too; the
`idx`-th entry of `pollfds` is there as long as it has one for each rule. -/
def dispatch (pollfds : List (Option Direction)) (revents : ℕ → Revents) (answer : ℕ → κ) :
    ℕ → List ι → σ → Except Exn (Pass σ ι κ)
  | _, [], s => .ok { rules := [], state := s }
  | idx, i :: rules, s =>
    if (revents idx).error then .error polledError
    else
      let events := pollfds[idx]?.join
      let pollReady := (revents idx).meets events
      if (revents idx).hup = true ∧ events.isSome = true ∧ pollReady = false then do
        let p ← dispatch pollfds revents answer (idx + 1) rules ((rule i).cancel s)
        return { p with calls := .cancel i :: p.calls }
      else if pollReady then do
        let s' ← (rule i).callback (answer idx) s
        if (rule i).serviceCount s = (rule i).serviceCount s' ∧ (rule i).interest s' = true then
          .error busyWait
        else
          let p ← dispatch pollfds revents answer (idx + 1) rules s'
          return { p with
            rules := i :: p.rules
            calls := .callback i (answer idx) :: p.calls }
      else do
        let p ← dispatch pollfds revents answer (idx + 1) rules s
        return { p with rules := i :: p.rules }

/-- `wait_next_event`; `answer idx` is what the kernel answers to the callback of the `idx`-th rule
that is polled. -/
def waitNextEvent (rules : List ι) (s : σ) (poll : Poll) (answer : ℕ → κ) :
    Except Exn (Result × Pass σ ι κ) :=
  let (pollfds, p) := arm rule rules s
  -- quit if there is nothing left to poll
  if pollfds.any Option.isSome = false then .ok (.exit, p)
  else
    match poll with
    | .timeout => .ok (.timeout, p)
    | .interrupted => .ok (.exit, p)
    -- the error is caught, and the `revents` are zero as they were
    | .failed => do
      let p' ← dispatch rule pollfds (fun _ => {}) answer 0 p.rules p.state
      return (.success, { p' with calls := p.calls ++ p'.calls })
    | .ready revents => do
      let p' ← dispatch rule pollfds revents answer 0 p.rules p.state
      return (.success, { p' with calls := p.calls ++ p'.calls })

end Model

/-! ## What a pass keeps -/

/-- **Conditions on the single rules**, which are asked in the order `r`.  `A` holds while they are
asked and `I` while they are called back; `G i` is what the callback of `i` relies on since `i` said
that it is interested, and `E s a` are the exceptions that a callback may throw in the state `s` at
the answer `a`. -/
structure Safe {σ ι κ : Type} (rule : ι → Rule σ κ) (r : ι → ι → Prop) (A I : σ → Prop)
    (G : ι → σ → Prop) (E : σ → κ → Exn → Prop) : Prop where
  start : ∀ s, A s → I s
  interest : ∀ i s, A s → (rule i).interest s = true → G i s
  callback : ∀ i answer s s', I s → G i s → (rule i).callback answer s = .ok s' → I s'
  frame : ∀ i answer s s' j, I s → G i s → (rule i).callback answer s = .ok s' → r i j → G j s →
    G j s'
  throws : ∀ i answer s e, I s → G i s → (rule i).callback answer s = .error e →
    E s answer e
  /-- a callback that is still interested has used its descriptor -/
  serves : ∀ i answer s s', I s → G i s → (rule i).callback answer s = .ok s' →
    (rule i).interest s' = true → (rule i).serviceCount s ≠ (rule i).serviceCount s'
  cancelStart : ∀ i s, A s → A ((rule i).cancel s)
  cancel : ∀ i s, I s → I ((rule i).cancel s)
  cancel_frame : ∀ i s j, j ≠ i → G j s → G j ((rule i).cancel s)

section Proofs

variable {σ ι κ : Type} {rule : ι → Rule σ κ} {r : ι → ι → Prop} {A I : σ → Prop}
  {G : ι → σ → Prop} {E : σ → κ → Exn → Prop} {rules : List ι} {s : σ}
  {pollfds : List (Option Direction)} {revents : ℕ → Revents} {answer : ℕ → κ} {idx : ℕ}
  {p : Pass σ ι κ}

/-- The rules that were asked, with what they said. -/
abbrev Asked (G : ι → σ → Prop) (s : σ) (rules : List ι) (pollfds : List (Option Direction)) :
    Prop :=
  List.Forall₂ (fun i events => events.isSome = true → G i s) rules pollfds

theorem Asked.mono {s' : σ} (h : Asked G s rules pollfds)
    (hkeep : ∀ j ∈ rules, G j s → G j s') : Asked G s' rules pollfds := by
  induction h with
  | nil => exact .nil
  | cons hask _ ih =>
    refine .cons (fun hsome => hkeep _ List.mem_cons_self (hask hsome)) (ih fun j hj => ?_)
    exact hkeep j (List.mem_cons_of_mem _ hj)

theorem arm_of_gone {i : ι} (h : (rule i).gone s = true) : arm rule (i :: rules) s =
    ((arm rule rules ((rule i).cancel s)).1,
      { (arm rule rules ((rule i).cancel s)).2 with
        calls := .cancel i :: (arm rule rules ((rule i).cancel s)).2.calls }) := by
  rw [arm, if_pos h]

theorem arm_of_not_gone {i : ι} (h : ¬ (rule i).gone s = true) : arm rule (i :: rules) s =
    ((if (rule i).interest s then some (rule i).direction else none) :: (arm rule rules s).1,
      { (arm rule rules s).2 with rules := i :: (arm rule rules s).2.rules }) := by
  rw [arm, if_neg h]

/-- **The first loop**: what the rules said still holds at its end. -/
theorem Safe.arm (hsafe : Safe rule r A I G E) (hA : A s) (hnodup : rules.Nodup) :
    A (EventLoop.arm rule rules s).2.state ∧
      (EventLoop.arm rule rules s).2.rules.Sublist rules ∧
      Asked G (EventLoop.arm rule rules s).2.state (EventLoop.arm rule rules s).2.rules
        (EventLoop.arm rule rules s).1 ∧
      ∀ j, j ∉ rules → G j s → G j (EventLoop.arm rule rules s).2.state := by
  induction rules generalizing s with
  | nil => exact ⟨hA, .slnil, .nil, fun _ _ h => h⟩
  | cons i rules ih =>
    obtain ⟨hi, hnodup⟩ := List.nodup_cons.mp hnodup
    by_cases hgone : (rule i).gone s = true
    · rw [arm_of_gone hgone]
      obtain ⟨hA', hsub, hasked, hframe⟩ := ih (hsafe.cancelStart i s hA) hnodup
      refine ⟨hA', hsub.cons _, hasked, fun j hj hG => ?_⟩
      obtain ⟨hne, hj⟩ := not_or.mp (mt List.mem_cons.mpr hj)
      exact hframe j hj (hsafe.cancel_frame i s j hne hG)
    · rw [arm_of_not_gone hgone]
      obtain ⟨hA', hsub, hasked, hframe⟩ := ih hA hnodup
      refine ⟨hA', hsub.cons_cons _, .cons (fun hsome => ?_) hasked, fun j hj => ?_⟩
      · split_ifs at hsome with hwant
        · exact hframe i hi (hsafe.interest i s hA hwant)
        · cases hsome
      · exact hframe j fun hmem => hj (List.mem_cons_of_mem _ hmem)

/-- **What a turn of the second loop can do** with the rule `i`; `rest` is the rest of the loop,
`error` says whether its descriptor is in error, and `asked` whether `i` was interested. -/
inductive Turn (rule : ι → Rule σ κ) (i : ι) (a : κ) (error asked : Bool) (s : σ)
    (rest : σ → Except Exn (Pass σ ι κ)) : Except Exn (Pass σ ι κ) → Prop
  | failed (herror : error = true) : Turn rule i a error asked s rest (.error polledError)
  | cancelled (hasked : asked = true) : Turn rule i a error asked s rest
      ((rest ((rule i).cancel s)).map fun p => { p with calls := .cancel i :: p.calls })
  | passed : Turn rule i a error asked s rest
      ((rest s).map fun p => { p with rules := i :: p.rules })
  | thrown {e : Exn} (hasked : asked = true) (hcall : (rule i).callback a s = .error e) :
      Turn rule i a error asked s rest (.error e)
  | busy {s' : σ} (hasked : asked = true) (hcall : (rule i).callback a s = .ok s')
      (hcount : (rule i).serviceCount s = (rule i).serviceCount s')
      (hinterest : (rule i).interest s' = true) :
      Turn rule i a error asked s rest (.error busyWait)
  | called {s' : σ} (hasked : asked = true) (hcall : (rule i).callback a s = .ok s') :
      Turn rule i a error asked s rest ((rest s').map fun p =>
        { p with rules := i :: p.rules, calls := .callback i a :: p.calls })

theorem dispatch_turn (rule : ι → Rule σ κ) (pollfds : List (Option Direction))
    (revents : ℕ → Revents) (answer : ℕ → κ) (idx : ℕ) (i : ι) (rules : List ι) (s : σ) :
    Turn rule i (answer idx) (revents idx).error (pollfds[idx]?.join).isSome s
      (dispatch rule pollfds revents answer (idx + 1) rules)
      (dispatch rule pollfds revents answer idx (i :: rules) s) := by
  have hready : (revents idx).meets pollfds[idx]?.join = true →
      (pollfds[idx]?.join).isSome = true := by
    intro h
    cases hevents : pollfds[idx]?.join with
    | none => simp [hevents, Revents.meets] at h
    | some d => rfl
  rw [dispatch]
  dsimp only
  split_ifs with herror hhup hmeets
  · exact .failed herror
  · exact .cancelled hhup.2.1
  · cases hcall : (rule i).callback (answer idx) s with
    | error e => exact .thrown (hready hmeets) hcall
    | ok s' =>
      simp only [bind, Except.bind]
      split_ifs with hbusy
      · exact .busy (hready hmeets) hcall hbusy.1 hbusy.2
      · exact .called (hready hmeets) hcall
  · exact .passed

/-- The report has an error for a descriptor. -/
def Broken (revents : ℕ → Revents) : Prop := ∃ idx, (revents idx).error = true

/-- **What holds of the outcome of a pass**; `broken` says that a descriptor is in error. -/
def Good (I : σ → Prop) (E : σ → κ → Exn → Prop) (broken : Prop) (answer : ℕ → κ)
    (rules : List ι) : Except Exn (Pass σ ι κ) → Prop
  | .ok p => I p.state ∧ p.rules.Sublist rules
  | .error e => (∃ s idx, I s ∧ E s (answer idx) e) ∨ e = polledError ∧ broken

theorem Good.map {broken broken' : Prop} {rules' : List ι} {r : Except Exn (Pass σ ι κ)}
    {f : Pass σ ι κ → Pass σ ι κ} (h : Good I E broken answer rules r)
    (hbroken : broken → broken') (hstate : ∀ p, (f p).state = p.state)
    (hrules : ∀ p, p.rules.Sublist rules → (f p).rules.Sublist rules') :
    Good I E broken' answer rules' (r.map f) := by
  cases r with
  | error e => exact h.imp_right fun herror => ⟨herror.1, hbroken herror.2⟩
  | ok p => exact ⟨by rw [hstate]; exact h.1, hrules p h.2⟩

/-- The `pollfds` from `idx` on are those of the rules that are left. -/
theorem Asked.uncons {i : ι} (h : Asked G s (i :: rules) (pollfds.drop idx)) :
    ((pollfds[idx]?.join).isSome = true → G i s) ∧ Asked G s rules (pollfds.drop (idx + 1)) := by
  generalize hdrop : pollfds.drop idx = rest at h
  cases h with
  | cons hask htail =>
    rename_i events rest
    have hhead : pollfds[idx]? = some events := by
      rw [← Nat.add_zero idx, ← List.getElem?_drop, hdrop, List.getElem?_cons_zero]
    refine ⟨fun hsome => hask (by rwa [hhead] at hsome), ?_⟩
    rw [← List.drop_drop, hdrop, List.drop_one, List.tail_cons]
    exact htail

/-- **The second loop**: the invariant is kept, and what is thrown is allowed. -/
theorem Safe.dispatch (hsafe : Safe rule r A I G E) : ∀ (rules : List ι) (idx : ℕ) (s : σ), I s →
    rules.Nodup → rules.Pairwise r → Asked G s rules (pollfds.drop idx) →
    Good I E (Broken revents) answer rules (dispatch rule pollfds revents answer idx rules s)
  | [], _, s, hI, _, _, _ => ⟨hI, .slnil⟩
  | i :: rules, idx, s, hI, hnodup, horder, hasked => by
    obtain ⟨hi, hnodup⟩ := List.nodup_cons.mp hnodup
    obtain ⟨hlater, horder⟩ := List.pairwise_cons.mp horder
    obtain ⟨hhead, htail⟩ := hasked.uncons
    -- the rules after `i` still have what they rely on when `i` is done
    have hrest : ∀ s', I s' → (∀ j ∈ rules, G j s → G j s') →
        Good I E (Broken revents) answer rules
          (EventLoop.dispatch rule pollfds revents answer (idx + 1) rules s') :=
      fun s' hI' hframe => hsafe.dispatch rules (idx + 1) s' hI' hnodup horder (htail.mono hframe)
    have hturn := dispatch_turn rule pollfds revents answer idx i rules s
    generalize EventLoop.dispatch rule pollfds revents answer idx (i :: rules) s = r at hturn
    cases hturn with
    | failed herror => exact .inr ⟨rfl, idx, herror⟩
    | cancelled hasked =>
      refine (hrest _ (hsafe.cancel i s hI) fun j hj => ?_).map id (fun _ => rfl) fun _ hsub =>
        hsub.cons _
      exact hsafe.cancel_frame i s j fun hji => hi (hji ▸ hj)
    | passed =>
      exact (hrest s hI fun _ _ h => h).map id (fun _ => rfl) fun _ hsub => hsub.cons_cons _
    | thrown hasked hcall =>
      exact .inl ⟨s, idx, hI, hsafe.throws i _ s _ hI (hhead hasked) hcall⟩
    | busy hasked hcall hcount hinterest =>
      exact absurd hcount (hsafe.serves i _ s _ hI (hhead hasked) hcall hinterest)
    | called hasked hcall =>
      have hG := hhead hasked
      exact (hrest _ (hsafe.callback i _ s _ hI hG hcall) fun j hj =>
        hsafe.frame i _ s _ j hI hG hcall (hlater j hj)).map id (fun _ => rfl) fun _ hsub =>
          hsub.cons_cons _

/-- `poll(2)` has reported an error for a descriptor. -/
def Poll.Broken : Poll → Prop
  | .ready revents => EventLoop.Broken revents
  | .timeout | .interrupted | .failed => False

/-- **What `wait_next_event` does**: it stops after the first loop, or goes on to the second. -/
theorem waitNextEvent_cases (rule : ι → Rule σ κ) (rules : List ι) (s : σ) (poll : Poll)
    (answer : ℕ → κ) :
    (∃ result, waitNextEvent rule rules s poll answer = .ok (result, (arm rule rules s).2)) ∨
    ∃ revents, (Broken revents → poll.Broken) ∧ waitNextEvent rule rules s poll answer =
      (dispatch rule (arm rule rules s).1 revents answer 0 (arm rule rules s).2.rules
        (arm rule rules s).2.state).map fun p =>
          (.success, { p with calls := (arm rule rules s).2.calls ++ p.calls }) := by
  rw [waitNextEvent]
  dsimp only
  split_ifs with hnothing
  · exact .inl ⟨_, rfl⟩
  · cases poll with
    | timeout => exact .inl ⟨_, rfl⟩
    | interrupted => exact .inl ⟨_, rfl⟩
    | failed => exact .inr ⟨_, fun ⟨_, herror⟩ => Bool.false_ne_true herror, rfl⟩
    | ready revents => exact .inr ⟨_, id, rfl⟩

/-- **A pass keeps the invariant** and throws nothing but what the callbacks are allowed to throw,
or that a descriptor is in error; no rule comes back. -/
theorem Safe.waitNextEvent (hsafe : Safe rule r A I G E) (hA : A s) (hnodup : rules.Nodup)
    (horder : rules.Pairwise r) (poll : Poll) (answer : ℕ → κ) :
    Good I E poll.Broken answer rules ((waitNextEvent rule rules s poll answer).map Prod.snd) := by
  obtain ⟨hA', hsub, hasked, -⟩ := hsafe.arm hA hnodup
  have hI' := hsafe.start _ hA'
  obtain ⟨result, heq⟩ | ⟨revents, hbroken, heq⟩ := waitNextEvent_cases rule rules s poll answer
  · rw [heq]
    exact ⟨hI', hsub⟩
  · have hgood : Good I E (Broken revents) answer (EventLoop.arm rule rules s).2.rules
        (EventLoop.dispatch rule (EventLoop.arm rule rules s).1 revents answer 0
          (EventLoop.arm rule rules s).2.rules (EventLoop.arm rule rules s).2.state) :=
      hsafe.dispatch _ 0 _ hI' (hnodup.sublist hsub) (horder.sublist hsub) hasked
    have hmap := hgood.map (f := fun p =>
        { p with calls := (EventLoop.arm rule rules s).2.calls ++ p.calls })
      hbroken (fun _ => rfl) fun _ hleft => hleft.trans hsub
    rw [heq]
    generalize EventLoop.dispatch rule _ revents answer 0 _ _ = r at hmap
    cases r <;> exact hmap

/-- **A pass with nothing to poll.**  Each rule that is left was not interested, and what this says
of the state, `N i`, still holds at the end if the cancellations of the rules after it keep it. -/
theorem arm_idle {N : ι → σ → Prop} (hcancel : ∀ i s, A s → A ((rule i).cancel s))
    (hidle : ∀ i s, A s → (rule i).interest s = false → N i s)
    (hkeep : ∀ i j s, r i j → N i s → N i ((rule j).cancel s)) (hA : A s)
    (horder : rules.Pairwise r)
    (hnone : (EventLoop.arm rule rules s).1.any Option.isSome = false) :
    A (EventLoop.arm rule rules s).2.state ∧
      (∀ i ∈ (EventLoop.arm rule rules s).2.rules, N i (EventLoop.arm rule rules s).2.state) ∧
      ∀ i, (∀ j ∈ rules, r i j) → N i s → N i (EventLoop.arm rule rules s).2.state := by
  induction rules generalizing s with
  | nil => exact ⟨hA, by simp [EventLoop.arm], fun _ _ h => h⟩
  | cons i rules ih =>
    obtain ⟨hlater, horder⟩ := List.pairwise_cons.mp horder
    by_cases hgone : (rule i).gone s = true
    · rw [arm_of_gone hgone] at hnone ⊢
      obtain ⟨hA', hleft, hframe⟩ := ih (hcancel i s hA) horder hnone
      refine ⟨hA', hleft, fun j hj hN => ?_⟩
      obtain ⟨hji, hj⟩ := List.forall_mem_cons.mp hj
      exact hframe j hj (hkeep j i s hji hN)
    · rw [arm_of_not_gone hgone] at hnone ⊢
      rw [List.any_cons, Bool.or_eq_false_iff] at hnone
      obtain ⟨hA', hleft, hframe⟩ := ih hA horder hnone.2
      have hquiet : (rule i).interest s = false := by
        by_contra hwant
        simp [hwant] at hnone
      refine ⟨hA', fun j hj => ?_, fun j hj => hframe j (List.forall_mem_cons.mp hj).2⟩
      rcases List.mem_cons.mp hj with rfl | hj
      · exact hframe j hlater (hidle j s hA hquiet)
      · exact hleft j hj

/-- **`wait_next_event` says to exit** when there is nothing left to poll, or at a signal. -/
theorem of_exit {poll : Poll} (h : waitNextEvent rule rules s poll answer = .ok (.exit, p))
    (hpoll : poll ≠ .interrupted) :
    (EventLoop.arm rule rules s).1.any Option.isSome = false ∧
      p = (EventLoop.arm rule rules s).2 := by
  rw [EventLoop.waitNextEvent] at h
  dsimp only at h
  split_ifs at h with hnothing
  · exact ⟨hnothing, (Prod.mk.inj (Except.ok.inj h)).2.symm⟩
  · cases poll with
    | timeout => cases h
    | interrupted => exact absurd rfl hpoll
    | failed | ready =>
      obtain ⟨q, -, h⟩ := Except.bind_eq_ok_iff.mp h
      cases h

end Proofs

/-! ## The life of a rule -/

/-- The rule that a call is of. -/
def RuleCall.name {ι κ : Type} : RuleCall ι κ → ι
  | .callback name _ => name
  | .cancel name => name

def RuleCall.isCallback {ι κ : Type} : RuleCall ι κ → Bool
  | .callback _ _ => true
  | .cancel _ => false

section Lives

variable {σ ι κ : Type} [DecidableEq ι] {rule : ι → Rule σ κ} {rules left : List ι} {s : σ}
  {calls : List (RuleCall ι κ)} {i : ι}

/-- The calls of one rule. -/
def about (i : ι) (calls : List (RuleCall ι κ)) : List (RuleCall ι κ) :=
  calls.filter fun c => c.name = i

theorem about_cons_self (i : ι) {c : RuleCall ι κ} (h : c.name = i) :
    about i (c :: calls) = c :: about i calls :=
  List.filter_cons_of_pos (decide_eq_true h)

theorem about_cons_of_ne {c : RuleCall ι κ} (h : c.name ≠ i) :
    about i (c :: calls) = about i calls :=
  List.filter_cons_of_neg (by simpa using h)

theorem about_append (i : ι) (calls calls' : List (RuleCall ι κ)) :
    about i (calls ++ calls') = about i calls ++ about i calls' := List.filter_append ..

/-- **The calls made while `rules` became `left`**: a rule that is left has had callbacks only, and
one that is not was cancelled last. -/
structure Lives (rules : List ι) (calls : List (RuleCall ι κ)) (left : List ι) : Prop where
  sublist : left.Sublist rules
  others : ∀ i ∉ rules, about i calls = []
  alive : ∀ i ∈ left, ∀ c ∈ about i calls, c.isCallback = true
  cancelled : ∀ i ∈ rules, i ∉ left → ∃ before, about i calls = before ++ [.cancel i] ∧
    ∀ c ∈ before, c.isCallback = true

theorem Lives.refl (rules : List ι) : Lives (κ := κ) rules [] rules :=
  ⟨.refl _, fun _ _ => rfl, by simp [about], fun _ h h' => absurd h h'⟩

theorem Lives.trans {left' : List ι} {calls' : List (RuleCall ι κ)} (h : Lives rules calls left)
    (h' : Lives left calls' left') : Lives rules (calls ++ calls') left' where
  sublist := h'.sublist.trans h.sublist
  others i hi := by
    rw [about_append, h.others i hi, h'.others i fun hleft => hi (h.sublist.subset hleft),
      List.append_nil]
  alive i hi c hc := by
    rw [about_append] at hc
    rcases List.mem_append.mp hc with hc | hc
    · exact h.alive i (h'.sublist.subset hi) c hc
    · exact h'.alive i hi c hc
  cancelled i hi hgone := by
    rw [about_append]
    by_cases hleft : i ∈ left
    · obtain ⟨before, hbefore, hall⟩ := h'.cancelled i hleft hgone
      refine ⟨about i calls ++ before, by rw [hbefore, List.append_assoc], fun c hc => ?_⟩
      exact (List.mem_append.mp hc).elim (h.alive i hleft c) (hall c)
    · obtain ⟨before, hbefore, hall⟩ := h.cancelled i hi hleft
      exact ⟨before, by rw [hbefore, h'.others i hleft, List.append_nil], hall⟩

/-- The first rule is cancelled. -/
theorem Lives.cancel (h : Lives rules calls left) (hi : i ∉ rules) :
    Lives (i :: rules) (.cancel i :: calls) left where
  sublist := h.sublist.cons _
  others j hj := by
    obtain ⟨hne, hj⟩ := not_or.mp (mt List.mem_cons.mpr hj)
    rw [about_cons_of_ne (Ne.symm hne), h.others j hj]
  alive j hj c hc := by
    have hne : i ≠ j := fun hij => hi (hij ▸ h.sublist.subset hj)
    rw [about_cons_of_ne (c := .cancel i) hne] at hc
    exact h.alive j hj c hc
  cancelled j hj hgone := by
    by_cases hij : i = j
    · subst hij
      exact ⟨[], by rw [about_cons_self i rfl, h.others i hi]; rfl, by simp⟩
    · rw [about_cons_of_ne (c := .cancel i) hij]
      exact h.cancelled j ((List.mem_cons.mp hj).resolve_left (Ne.symm hij)) hgone

/-- The first rule stays. -/
theorem Lives.keep (h : Lives rules calls left) (hi : i ∉ rules) :
    Lives (i :: rules) calls (i :: left) where
  sublist := h.sublist.cons_cons _
  others j hj := h.others j fun hmem => hj (List.mem_cons_of_mem _ hmem)
  alive j hj c hc := by
    rcases List.mem_cons.mp hj with rfl | hj
    · rw [h.others j hi] at hc
      cases hc
    · exact h.alive j hj c hc
  cancelled j hj hgone := by
    obtain ⟨hne, hgone⟩ := not_or.mp (mt List.mem_cons.mpr hgone)
    exact h.cancelled j ((List.mem_cons.mp hj).resolve_left hne) hgone

/-- The first rule is called back, and stays. -/
theorem Lives.call (h : Lives rules calls left) (hi : i ∉ rules) (a : κ) :
    Lives (i :: rules) (.callback i a :: calls) (i :: left) := by
  have hcall : Lives (κ := κ) (i :: rules) [.callback i a] (i :: rules) := by
    refine ⟨.refl _, fun j hj => ?_, fun j hj c hc => ?_, fun j hj hgone => absurd hj hgone⟩
    · have hne : i ≠ j := fun hij => hj (hij ▸ List.mem_cons_self)
      simp [about, RuleCall.name, hne]
    · rw [about, List.mem_filter, List.mem_singleton] at hc
      rw [hc.1]
      rfl
  exact hcall.trans (h.keep hi)

theorem lives_arm (hnodup : rules.Nodup) (s : σ) :
    Lives rules (arm rule rules s).2.calls (arm rule rules s).2.rules := by
  induction rules generalizing s with
  | nil => exact .refl []
  | cons i rules ih =>
    obtain ⟨hi, hnodup⟩ := List.nodup_cons.mp hnodup
    by_cases hgone : (rule i).gone s = true
    · rw [arm_of_gone hgone]
      exact (ih hnodup _).cancel hi
    · rw [arm_of_not_gone hgone]
      exact (ih hnodup s).keep hi

theorem lives_dispatch {pollfds : List (Option Direction)} {revents : ℕ → Revents}
    {answer : ℕ → κ} : ∀ {rules : List ι} {idx : ℕ} {s : σ} {p : Pass σ ι κ}, rules.Nodup →
      dispatch rule pollfds revents answer idx rules s = .ok p → Lives rules p.calls p.rules
  | [], _, _, _, _, h => by
    obtain rfl := Except.ok.inj h
    exact .refl []
  | i :: rules, idx, s, p, hnodup, h => by
    obtain ⟨hi, hnodup⟩ := List.nodup_cons.mp hnodup
    have hturn := dispatch_turn rule pollfds revents answer idx i rules s
    rw [h] at hturn
    generalize hr : (Except.ok p : Except Exn (Pass σ ι κ)) = r at hturn
    cases hturn with
    | failed => cases hr
    | thrown => cases hr
    | busy => cases hr
    | cancelled =>
      obtain ⟨q, hq, rfl⟩ := Except.map_eq_ok_iff.mp hr.symm
      exact (lives_dispatch hnodup hq).cancel hi
    | passed =>
      obtain ⟨q, hq, rfl⟩ := Except.map_eq_ok_iff.mp hr.symm
      exact (lives_dispatch hnodup hq).keep hi
    | called =>
      obtain ⟨q, hq, rfl⟩ := Except.map_eq_ok_iff.mp hr.symm
      exact (lives_dispatch hnodup hq).call hi _

theorem lives_waitNextEvent {poll : Poll} {answer : ℕ → κ} {result : Result} {p : Pass σ ι κ}
    (hnodup : rules.Nodup) (h : waitNextEvent rule rules s poll answer = .ok (result, p)) :
    Lives rules p.calls p.rules := by
  have harm : Lives rules (arm rule rules s).2.calls (arm rule rules s).2.rules :=
    lives_arm hnodup s
  obtain ⟨result', heq⟩ | ⟨revents, -, heq⟩ := waitNextEvent_cases rule rules s poll answer
  · obtain ⟨-, rfl⟩ := Prod.mk.inj (Except.ok.inj (heq.symm.trans h))
    exact harm
  · obtain ⟨q, hq, hp⟩ := Except.map_eq_ok_iff.mp (heq.symm.trans h)
    obtain ⟨-, rfl⟩ := Prod.mk.inj hp
    exact harm.trans (lives_dispatch (hnodup.sublist harm.sublist) hq)

end Lives

/-- What happens to a loop: a pass, or anything that changes the state in between. -/
inductive LoopOp (σ κ : Type)
  | wait (poll : Poll) (answer : ℕ → κ)
  | between (s : σ)

/-- A step of a run, which ends with a pass that throws. -/
def step {σ ι κ : Type} (rule : ι → Rule σ κ) (p : Pass σ ι κ) :
    LoopOp σ κ → Option (Pass σ ι κ)
  | .wait poll answer =>
    match waitNextEvent rule p.rules p.state poll answer with
    | .error _ => none
    | .ok (_, q) => some { q with calls := p.calls ++ q.calls }
  | .between s => some { p with state := s }

/-- **The life of a rule.**  Over any number of passes, with any answers of the kernel and whatever
happens in between, the rules that are left have only been called back; every other rule was called
back any number of times, then cancelled, and not called since. -/
theorem rule_lifecycle {σ ι κ : Type} [DecidableEq ι] (rule : ι → Rule σ κ) {rules : List ι}
    (hnodup : rules.Nodup) (s : σ) {p : Pass σ ι κ}
    (h : Reach (step rule) (fun _ _ => True) { rules, state := s } p) :
    p.rules.Sublist rules ∧ ∀ i ∈ rules, ∃ callbacks, (∀ c ∈ callbacks, c.isCallback = true) ∧
      about i p.calls = if i ∈ p.rules then callbacks else callbacks ++ [.cancel i] := by
  have hlives : Lives rules p.calls p.rules := by
    refine h.invariant (I := fun p => Lives rules p.calls p.rules) (.refl rules) ?_
    rintro p (⟨poll, answer⟩ | ⟨s'⟩) p' ih - hstep
    · simp only [step] at hstep
      split at hstep
      · cases hstep
      · rename_i result q hwait
        obtain rfl := Option.some.inj hstep
        exact ih.trans (lives_waitNextEvent (hnodup.sublist ih.sublist) hwait)
    · obtain rfl := Option.some.inj hstep
      exact ih
  refine ⟨hlives.sublist, fun i hi => ?_⟩
  split_ifs with hleft
  · exact ⟨_, hlives.alive i hleft, rfl⟩
  · obtain ⟨before, hbefore, hall⟩ := hlives.cancelled i hi hleft
    exact ⟨before, hall, hbefore⟩

/-- A descriptor is read until its end, and then cancelled. -/
theorem rule_lifecycle_eof :
    let rule : Unit → Rule FDWrapper Bytes := fun _ =>
      { fd := id, direction := .In, callback := fun data fd => (fd.read 4 (.ok data)).map Prod.snd }
    ∃ p, Reach (step rule) (fun _ _ => True) { rules := [()], state := {} } p ∧ p.rules = [] ∧
      ∃ callbacks, (∀ c ∈ callbacks, c.isCallback = true) ∧
        about () p.calls = callbacks ++ [.cancel ()] := by
  intro rule
  let ready : Poll := .ready fun _ => { pollIn := true }
  obtain ⟨p, hp, hgone⟩ := exists_reach_of_exec (step rule) (fun _ _ => True)
    { rules := [()], state := {} }
    [.wait ready fun _ => [1, 2], .wait ready fun _ => [], .wait ready fun _ => []]
    (fun p => p.rules.isEmpty) (by decide)
  have hnil : p.rules = [] := List.isEmpty_iff.mp hgone
  obtain ⟨callbacks, hall, heq⟩ := (rule_lifecycle rule (by decide) _ hp).2 () (by decide)
  rw [hnil, if_neg List.not_mem_nil] at heq
  exact ⟨p, hp, hnil, callbacks, hall, heq⟩

end EventLoop
