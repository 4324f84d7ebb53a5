import LateBinding.Proofs.Machine.Execution

set_option autoImplicit false

/-! # Step limits

The limit of an invocation is no input of its instructions: what they do, and so the states that a
run comes to, are the same with every limit (`Reaches.withLimit`). A run that no limit cuts stops by
itself after some number of instructions (`StopsAfter`), waits at some instruction for a provider
that never answers (`StallsAfter`), or goes on for ever (`Endless`). With a limit of at least this
number of instructions the run is the whole one (`run_of_stopsAfter`), with a smaller one it is cut
in the state after as many instructions as it may execute (`CutAfter`). `Program.invoke_limit` puts
this together, with the methods that are not invoked at all.
-/

namespace LateBinding

/-- How a trap for want of steps is reported. -/
theorem Error.message_stepLimit (owner method : String) (pc limit : Nat) :
    (Error.runtime (.trapped owner method pc (.stepLimit limit))).message =
      "Runtime error: " ++ (s!"{owner}.{method}[{pc}]: " ++ s!"step limit {limit} exceeded") :=
  rfl

namespace Invocation

variable {inv : Invocation} {depth : Nat} {registry : String} {first frame : Frame}
  {origin c : Container} {insn : Instruction} {result : Except Error Value} {n limit : Nat}

/-! ## How runs go that no limit cuts -/

/-- The run executes so many instructions, the one that ends it included, and has this result. -/
inductive StopsAfter (inv : Invocation) (depth : Nat) (registry : String) (first : Frame)
    (origin : Container) : Nat → Except Error Value → Container → Prop
  | fellOff {n : Nat} {frame : Frame} {c : Container}
      (reaches : inv.Reaches depth registry first origin n frame c)
      (fetch : inv.method.code[frame.pc]? = none) :
      StopsAfter inv depth registry first origin n
        (.error (.runtime (inv.trap frame.pc .fellOff))) c
  | halt {n : Nat} {frame : Frame} {c after : Container} {insn : Instruction}
      {result : Except Error Value} (reaches : inv.Reaches depth registry first origin n frame c)
      (fetch : inv.method.code[frame.pc]? = some insn)
      (halts : inv.advance depth registry frame c insn = some (.halt result after)) :
      StopsAfter inv depth registry first origin (n + 1) result after

/-- Behind so many instructions, the run waits at a dynamic call for a provider that never
answers. -/
def StallsAfter (inv : Invocation) (depth : Nat) (registry : String) (first : Frame)
    (origin : Container) (n : Nat) : Prop :=
  ∃ frame c insn, inv.Reaches depth registry first origin n frame c ∧
    inv.method.code[frame.pc]? = some insn ∧ inv.advance depth registry frame c insn = none

/-- The run executes one instruction after the other. -/
def Endless (inv : Invocation) (depth : Nat) (registry : String) (first : Frame)
    (origin : Container) : Prop :=
  ∀ n, ∃ frame c, inv.Reaches depth registry first origin n frame c

/-- The run stands at an instruction behind so many others, with this container, and the error is
that it may not execute that one. -/
def CutAfter (inv : Invocation) (depth : Nat) (registry : String) (first : Frame)
    (origin : Container) (n : Nat) (result : Except Error Value) (c : Container) : Prop :=
  ∃ frame, inv.Reaches depth registry first origin n frame c ∧
    frame.pc < inv.method.code.size ∧
    result = .error (.runtime (inv.trap frame.pc (.stepLimit n)))

/-- Where an instruction stands to be executed, a limit that does not allow it cuts the run. -/
theorem cutAfter_of_fetch (h : inv.Reaches depth registry first origin n frame c)
    (fetch : inv.method.code[frame.pc]? = some insn) :
    ∃ result c, inv.CutAfter depth registry first origin n result c := by
  obtain ⟨hpc, -⟩ := Array.getElem?_eq_some_iff.1 fetch
  exact ⟨_, c, frame, h, hpc, rfl⟩

/-- Where there is no instruction, a run has stopped. -/
theorem Reaches.cut_or_stops (h : inv.Reaches depth registry first origin n frame c) :
    (∃ result c, inv.CutAfter depth registry first origin n result c) ∨
      ∃ result c, inv.StopsAfter depth registry first origin n result c := by
  cases fetch : inv.method.code[frame.pc]? with
  | none => exact .inr ⟨_, c, .fellOff h fetch⟩
  | some insn => exact .inl (cutAfter_of_fetch h fetch)

/-- After each number of instructions, a run has an instruction to execute unless it has stopped or
stalled by then. -/
theorem cutAfter_or_ends (inv : Invocation) (depth : Nat) (registry : String) (first : Frame)
    (origin : Container) (n : Nat) :
    (∃ result c, inv.CutAfter depth registry first origin n result c) ∨
      (∃ k ≤ n, ∃ result c, inv.StopsAfter depth registry first origin k result c) ∨
      ∃ k < n, inv.StallsAfter depth registry first origin k := by
  induction n with
  | zero =>
      rcases Reaches.start.cut_or_stops with hcut | hstops
      · exact .inl hcut
      · exact .inr (.inl ⟨0, Nat.le_refl 0, hstops⟩)
  | succ n ih =>
      rcases ih with ⟨_, c, frame, hreaches, hpc, -⟩ | ⟨k, hk, hstops⟩ | ⟨k, hk, hstalls⟩
      · have fetch := Array.getElem?_eq_getElem hpc
        cases hadvance : inv.advance depth registry frame c inv.method.code[frame.pc] with
        | none => exact .inr (.inr ⟨n, n.lt_succ_self, frame, c, _, hreaches, fetch, hadvance⟩)
        | some outcome =>
            cases outcome with
            | halt result after =>
                have hstops := StopsAfter.halt hreaches fetch hadvance
                exact .inr (.inl ⟨n + 1, Nat.le_refl _, result, after, hstops⟩)
            | go next after =>
                have hnext := Reaches.step hreaches fetch hadvance
                rcases hnext.cut_or_stops with hcut | hstops
                · exact .inl hcut
                · exact .inr (.inl ⟨n + 1, Nat.le_refl _, hstops⟩)
      · exact .inr (.inl ⟨k, by omega, hstops⟩)
      · exact .inr (.inr ⟨k, by omega, hstalls⟩)

/-- A run goes on for ever, stops by itself or stalls. -/
theorem endless_or_ends (inv : Invocation) (depth : Nat) (registry : String) (first : Frame)
    (origin : Container) :
    inv.Endless depth registry first origin ∨
      (∃ n result c, inv.StopsAfter depth registry first origin n result c) ∨
      ∃ n, inv.StallsAfter depth registry first origin n := by
  by_cases hends : (∃ n result c, inv.StopsAfter depth registry first origin n result c) ∨
      ∃ n, inv.StallsAfter depth registry first origin n
  · exact .inr hends
  · left
    intro n
    rcases inv.cutAfter_or_ends depth registry first origin n with ⟨_, c, frame, hreaches, -, -⟩ |
      ⟨k, -, result, c, hstops⟩ | ⟨k, -, hstalls⟩
    · exact ⟨frame, c, hreaches⟩
    · exact absurd (.inl ⟨k, result, c, hstops⟩) hends
    · exact absurd (.inr ⟨k, hstalls⟩) hends

/-! ## The same run with another limit -/

/-- The invocation with another limit. -/
def withLimit (inv : Invocation) (limit : Nat) : Invocation := { inv with limit }

theorem advance_withLimit (limit : Nat) (frame : Frame) (c : Container) (insn : Instruction) :
    (inv.withLimit limit).advance depth registry frame c insn =
      inv.advance depth registry frame c insn := rfl

/-- The limit has no part in what the instructions do. -/
theorem Reaches.withLimit (h : inv.Reaches depth registry first origin n frame c) (limit : Nat) :
    (inv.withLimit limit).Reaches depth registry first origin n frame c := by
  induction h with
  | start => exact .start
  | step _ fetch go ih => exact .step ih fetch go

/-- A limit that leaves the run all of its instructions does not show. -/
theorem run_of_stopsAfter (h : inv.StopsAfter depth registry first origin n result c)
    (hn : n ≤ limit) :
    (inv.withLimit limit).run depth registry limit first origin = some (result, c) := by
  cases h with
  | @fellOff _ frame _ hreaches fetch =>
      obtain ⟨left, rfl⟩ := Nat.exists_eq_add_of_le hn
      calc (inv.withLimit (n + left)).run depth registry (n + left) first origin
          = (inv.withLimit (n + left)).run depth registry left frame c :=
            run_of_reaches (hreaches.withLimit _) left
        _ = some (.error (.runtime (inv.trap frame.pc .fellOff)), c) := run_of_none fetch
  | halt hreaches fetch halts => exact run_of_halt (hreaches.withLimit limit) hn fetch halts

/-- A limit that leaves the run the instructions before a provider that never answers, and the call
of it, does not show either. -/
theorem run_of_stallsAfter (h : inv.StallsAfter depth registry first origin n) (hn : n < limit) :
    (inv.withLimit limit).run depth registry limit first origin = none := by
  obtain ⟨frame, c, insn, hreaches, fetch, hadvance⟩ := h
  obtain ⟨left, rfl⟩ := Nat.exists_eq_add_of_lt hn
  have fetch' : (inv.withLimit (n + (left + 1))).method.code[frame.pc]? = some insn := fetch
  rw [Nat.add_assoc, run_of_reaches (hreaches.withLimit _), run_succ fetch', advance_withLimit,
    hadvance]

/-- A limit that leaves the run fewer instructions than it has cuts it. -/
theorem run_of_cutAfter (h : inv.CutAfter depth registry first origin limit result c) :
    (inv.withLimit limit).run depth registry limit first origin = some (result, c) := by
  obtain ⟨frame, hreaches, hpc, rfl⟩ := h
  have fetch := Array.getElem?_eq_getElem hpc
  calc (inv.withLimit limit).run depth registry limit first origin
      = (inv.withLimit limit).run depth registry 0 frame c :=
        run_of_reaches (hreaches.withLimit limit) 0
    _ = some (.error (.runtime (inv.trap frame.pc (.stepLimit limit))), c) := run_zero fetch

/-! ## Which limits cut a run -/

/-- Before a run is where it is after some number of instructions, each smaller limit cuts it. -/
theorem Reaches.cutAfter (h : inv.Reaches depth registry first origin n frame c)
    (hlimit : limit < n) :
    ∃ result c, inv.CutAfter depth registry first origin limit result c := by
  induction h with
  | start => omega
  | @step n _ _ _ _ _ before fetch go ih =>
      by_cases heq : limit = n
      · subst heq
        exact cutAfter_of_fetch before fetch
      · have hlt : limit < n := by omega
        exact ih hlt

theorem Reaches.cutAfter_of_le (h : inv.Reaches depth registry first origin n frame c)
    (fetch : inv.method.code[frame.pc]? = some insn) (hlimit : limit ≤ n) :
    ∃ result c, inv.CutAfter depth registry first origin limit result c := by
  by_cases heq : limit = n
  · subst heq
    exact cutAfter_of_fetch h fetch
  · have hlt : limit < n := by omega
    exact h.cutAfter hlt

/-- A run that stops by itself is cut by the limits below its number of instructions. -/
theorem StopsAfter.cutAfter (h : inv.StopsAfter depth registry first origin n result c)
    (hlimit : limit < n) :
    ∃ result c, inv.CutAfter depth registry first origin limit result c := by
  cases h with
  | fellOff hreaches => exact hreaches.cutAfter hlimit
  | halt hreaches fetch halts => exact hreaches.cutAfter_of_le fetch (Nat.le_of_lt_succ hlimit)

/-- A run that stalls is cut by the limits that do not let it come to the call. -/
theorem StallsAfter.cutAfter (h : inv.StallsAfter depth registry first origin n)
    (hlimit : limit ≤ n) :
    ∃ result c, inv.CutAfter depth registry first origin limit result c := by
  obtain ⟨frame, now, insn, hreaches, fetch, -⟩ := h
  exact hreaches.cutAfter_of_le fetch hlimit

/-- A run that goes on for ever is cut by every limit. -/
theorem Endless.cutAfter (h : inv.Endless depth registry first origin) (limit : Nat) :
    ∃ result c, inv.CutAfter depth registry first origin limit result c := by
  obtain ⟨frame, c, hreaches⟩ := h (limit + 1)
  exact hreaches.cutAfter (Nat.lt_succ_self limit)

/-- A limit cuts a run, or it does not show and neither does a larger one. -/
theorem cutAfter_or_run_eq (inv : Invocation) (depth : Nat) (registry : String) (first : Frame)
    (origin : Container) {limit limit' : Nat} (hle : limit ≤ limit') :
    (∃ result c, inv.CutAfter depth registry first origin limit result c) ∨
      (inv.withLimit limit').run depth registry limit' first origin =
        (inv.withLimit limit).run depth registry limit first origin := by
  rcases inv.cutAfter_or_ends depth registry first origin limit with hcut |
    ⟨n, hn, result, c, hstops⟩ | ⟨n, hn, hstalls⟩
  · exact .inl hcut
  · have hlarge : n ≤ limit' := by omega
    exact .inr ((run_of_stopsAfter hstops hlarge).trans (run_of_stopsAfter hstops hn).symm)
  · have hlarge : n < limit' := by omega
    exact .inr ((run_of_stallsAfter hstalls hlarge).trans (run_of_stallsAfter hstalls hn).symm)

end Invocation

namespace Container

variable {program : Program} {name : String} {args : List Value} {limit : Nat} {inv : Invocation}

/-- Whether a method can be invoked does not depend on the limit. -/
theorem prepare_withLimit (h : prepare program name args limit = .ok inv) (limit' : Nat) :
    prepare program name args limit' = .ok (inv.withLimit limit') := by
  obtain ⟨index, method, hindex, hmethod, hargs, rfl⟩ := prepare_eq_ok.1 h
  exact prepare_eq_ok.2 ⟨index, method, hindex, hmethod, hargs, rfl⟩

theorem prepare_error_of_error {cause : RuntimeError}
    (h : prepare program name args limit = .error cause) (limit' : Nat) :
    prepare program name args limit' = .error cause := by
  unfold prepare at h ⊢
  split at h
  · exact h
  · next index method hfound =>
      split at h
      · cases h
      · next hargs => exact (if_neg hargs).trans h

/-- An invocation with some limit is a run of the method with this limit. -/
theorem invoke_eq_run (h : prepare program name args limit = .ok inv) (depth : Nat)
    (registry : String) (receiver : Value) (c : Container) (limit' : Nat) :
    invoke depth registry program name receiver args limit' c =
      (inv.withLimit limit').run depth registry limit' (inv.start receiver args) c :=
  invoke_of_prepare (prepare_withLimit h limit') depth registry receiver c

end Container

/-- **A step limit cuts a run short and does nothing else.** Take any program, any method name,
receiver and arguments, and any instances, registries and call sites. If the method cannot be
invoked, this is the answer with every limit, and nothing changes. Otherwise, where a limit cuts the
run, the invocation fails with the step limit error at the instruction behind as many as the limit
allows, and leaves what these leave. If the run stops by itself after some number of instructions,
the one that returns or fails included, then with a limit of at least this number the invocation has
the result of the run and leaves what the run leaves, and each smaller limit cuts the run. A run
that goes on for ever is cut by every limit. The only other runs are those that wait for a provider
that never answers: limits that do not let them come to the call cut them, and with larger ones they
wait. In particular, an outcome that is not the step limit error is the same with every larger
limit. -/
theorem Program.invoke_limit (program : Program) (depth : Nat) (registry name : String)
    (receiver : Value) (args : List Value) (c : Container) :
    (∀ limit cause, Container.prepare program name args limit = .error cause →
      ∀ limit', Container.invoke depth registry program name receiver args limit' c =
        some (.error (.runtime cause), c)) ∧
    (∀ limit inv, Container.prepare program name args limit = .ok inv →
      (∀ limit' error now,
        inv.CutAfter depth registry (inv.start receiver args) c limit' error now →
        Container.invoke depth registry program name receiver args limit' c =
          some (error, now)) ∧
      (∀ n result after,
        inv.StopsAfter depth registry (inv.start receiver args) c n result after →
        (∀ limit' ≥ n, Container.invoke depth registry program name receiver args limit' c =
          some (result, after)) ∧
        ∀ limit' < n, ∃ error now,
          inv.CutAfter depth registry (inv.start receiver args) c limit' error now) ∧
      (inv.Endless depth registry (inv.start receiver args) c → ∀ limit', ∃ error now,
        inv.CutAfter depth registry (inv.start receiver args) c limit' error now) ∧
      (∀ n, inv.StallsAfter depth registry (inv.start receiver args) c n →
        (∀ limit' > n,
          Container.invoke depth registry program name receiver args limit' c = none) ∧
        ∀ limit' ≤ n, ∃ error now,
          inv.CutAfter depth registry (inv.start receiver args) c limit' error now) ∧
      (inv.Endless depth registry (inv.start receiver args) c ∨
        (∃ n result after,
          inv.StopsAfter depth registry (inv.start receiver args) c n result after) ∨
        ∃ n, inv.StallsAfter depth registry (inv.start receiver args) c n)) ∧
    (∀ limit limit', limit ≤ limit' →
      (∀ pc now, Container.invoke depth registry program name receiver args limit c ≠
        some (.error (.runtime (.trapped program.name name pc (.stepLimit limit))), now)) →
      Container.invoke depth registry program name receiver args limit' c =
        Container.invoke depth registry program name receiver args limit c) ∧
    ∀ owner method pc limit,
      (Error.runtime (.trapped owner method pc (.stepLimit limit))).message =
        "Runtime error: " ++ (s!"{owner}.{method}[{pc}]: " ++ s!"step limit {limit} exceeded") := by
  have hrefused (limit : Nat) (cause : RuntimeError)
      (h : Container.prepare program name args limit = .error cause) (limit' : Nat) :
      Container.invoke depth registry program name receiver args limit' c =
        some (.error (.runtime cause), c) := by
    simp only [Container.invoke, Container.prepare_error_of_error h limit']
  refine ⟨hrefused, ?_, ?_, Error.message_stepLimit⟩
  · intro limit inv hprepare
    have hinvoke := Container.invoke_eq_run hprepare depth registry receiver c
    refine ⟨?_, ?_, Invocation.Endless.cutAfter, ?_, inv.endless_or_ends depth registry _ c⟩
    · intro limit' error now hcut
      exact (hinvoke limit').trans (Invocation.run_of_cutAfter hcut)
    · intro n result after hstops
      refine ⟨?_, fun limit' hlt => hstops.cutAfter hlt⟩
      intro limit' hn
      exact (hinvoke limit').trans (Invocation.run_of_stopsAfter hstops hn)
    · intro n hstalls
      refine ⟨?_, fun limit' hle => hstalls.cutAfter hle⟩
      intro limit' hn
      exact (hinvoke limit').trans (Invocation.run_of_stallsAfter hstalls hn)
  · intro limit limit' hle hother
    cases hprepare : Container.prepare program name args limit with
    | error cause => rw [hrefused limit cause hprepare limit', hrefused limit cause hprepare limit]
    | ok inv =>
        have hinvoke := Container.invoke_eq_run hprepare depth registry receiver c
        rcases inv.cutAfter_or_run_eq depth registry (inv.start receiver args) c hle with
          ⟨error, now, hcut⟩ | hsame
        · -- the outcome would be the step limit error
          have hrun := (hinvoke limit).trans (Invocation.run_of_cutAfter hcut)
          obtain ⟨frame, -, -, rfl⟩ := hcut
          obtain ⟨_, _, -, -, -, rfl⟩ := Container.prepare_eq_ok.1 hprepare
          exact absurd hrun (hother frame.pc now)
        · rw [hinvoke, hinvoke, hsame]

/-- A method that answers with its argument, and goes round in circles when there is none. -/
def Method.spin : Method :=
  ⟨1, 1, 0, [], #[.loadLocal 1, .jumpIfNull 4, .loadLocal 1, .ret, .jump 4]⟩

def Module.spinner : Module where
  name := 0
  pool := ⟨#[.str "Spinner", .str "spin"]⟩
  methods := #[.spin]

theorem Program.invoke_limit_spinner :
    ∃ program, Container.load {} Module.spinner = .ok (program, {}) ∧
    Container.invoke 0 "" program "spin" .null [] 7 {} =
      some (.error (.runtime (.wrongArity "Spinner" "spin" 1 0)), {}) ∧
    (∀ limit ≥ 4, Container.invoke 0 "" program "spin" .null [.int 5] limit {} =
      some (.ok (.int 5), {})) ∧
    Container.invoke 0 "" program "spin" .null [.int 5] 3 {} =
      some (.error (.runtime (.trapped "Spinner" "spin" 3 (.stepLimit 3))), {}) ∧
    (∀ limit, ∃ cause now,
      Container.invoke 0 "" program "spin" .null [.null] limit {} =
        some (.error (.runtime cause), now)) ∧
    Container.invoke 0 "" program "spin" .null [.int 5] 9 {} =
      Container.invoke 0 "" program "spin" .null [.int 5] 6 {} := by
  let program : Program := ⟨"Spinner", .spinner, []⟩
  let inv : Invocation := ⟨program, 0, "spin", .spin, 0⟩
  have hindex : program.code.methodIndex? "spin" = some 0 := by decide +kernel
  have hprepare (value : Value) : Container.prepare program "spin" [value] 0 = .ok inv :=
    Container.prepare_eq_ok.2 ⟨0, .spin, hindex, rfl, rfl, rfl⟩
  have hrefused : Container.prepare program "spin" [] 0 =
      .error (.wrongArity "Spinner" "spin" 1 0) := by
    have hmethod : program.method? "spin" = some (0, .spin) := by decide +kernel
    rw [Container.prepare, hmethod]
    rfl
  have hstops : inv.StopsAfter 0 "" (inv.start .null [.int 5]) {} 4 (.ok (.int 5)) {} :=
    .halt (.step (.step (.step .start rfl rfl) rfl rfl) rfl rfl) rfl rfl
  have hendless : inv.Endless 0 "" (inv.start .null [.null]) {} := by
    -- behind two instructions, the run stays where it is
    have hround (n : Nat) : inv.Reaches 0 "" (inv.start .null [.null]) {} (n + 2)
        ⟨4, [], #[.null, .null]⟩ {} := by
      induction n with
      | zero => exact .step (.step .start rfl rfl) rfl rfl
      | succ n ih => exact .step ih rfl rfl
    intro n
    rcases n with _ | _ | n
    · exact ⟨_, _, .start⟩
    · exact ⟨_, _, .step .start rfl rfl⟩
    · exact ⟨_, _, hround n⟩
  obtain ⟨hany, -⟩ := invoke_limit program 0 "" "spin" .null [] {}
  obtain ⟨-, hfive, hlarger, -⟩ := invoke_limit program 0 "" "spin" .null [.int 5] {}
  obtain ⟨-, hnull, -⟩ := invoke_limit program 0 "" "spin" .null [.null] {}
  obtain ⟨hcut, hwhole, -⟩ := hfive 0 inv (hprepare (.int 5))
  obtain ⟨hcut', -, hforever, -⟩ := hnull 0 inv (hprepare .null)
  obtain ⟨henough, -⟩ := hwhole 4 _ _ hstops
  refine ⟨program, rfl, hany 0 _ hrefused 7, henough, hcut 3 _ _ ?_, ?_, hlarger 6 9 (by decide) ?_⟩
  · exact ⟨_, .step (.step (.step .start rfl rfl) rfl rfl) rfl rfl, by decide, rfl⟩
  · intro limit
    obtain ⟨error, now, h⟩ := hforever hendless limit
    have hinvoke := hcut' limit error now h
    obtain ⟨frame, -, -, rfl⟩ := h
    exact ⟨_, now, hinvoke⟩
  · intro pc now h
    rw [henough 6 (by decide)] at h
    cases h

end LateBinding
