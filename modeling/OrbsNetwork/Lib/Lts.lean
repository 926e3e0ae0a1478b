import Mathlib.Tactic.TypeStar
/-!
# Lts — transition systems given by a partial step function

`step s a = some s'` when the system in state `s` can take the action `a`; all nondeterminism is in the choice of the
actions.  A run is a list of actions.  `Meets G s as` says that every step of the run from `s` satisfies `G`, a
condition on the state before the step and its action; every prefix of such a run satisfies it too, so a fact about
the end of all guarded runs is a fact about every state they pass through.
-/
namespace Lts

variable {σ α : Type*} (step : σ → α → Option σ)

def run : σ → List α → Option σ
  | s, [] => some s
  | s, a :: as => (step s a).bind fun s' => run s' as

def Meets (G : σ → α → Prop) : σ → List α → Prop
  | _, [] => True
  | s, a :: as => G s a ∧ ∀ s', step s a = some s' → Meets G s' as

/-- `Meets`, run as a program. -/
def checks (g : σ → α → Bool) : σ → List α → Bool
  | _, [] => true
  | s, a :: as => g s a && match step s a with
    | some s' => checks g s' as
    | none => true

instance decidableMeets {G : σ → α → Prop} [∀ s a, Decidable (G s a)] :
    ∀ (s : σ) (as : List α), Decidable (Meets step G s as)
  | _, [] => isTrue trivial
  | s, a :: as =>
    match h : step s a with
    | some s' =>
      have := decidableMeets (G := G) s' as
      decidable_of_iff (G s a ∧ Meets step G s' as) <| and_congr_right fun _ =>
        ⟨fun hm t ht => by cases h.symm.trans ht; exact hm, fun hm => hm s' h⟩
    | none => decidable_of_iff (G s a) (and_iff_left fun t ht => by cases h.symm.trans ht).symm

variable {step}

theorem meets_of_checks {G : σ → α → Prop} {g : σ → α → Bool} (h : ∀ s a, g s a = true → G s a) :
    ∀ {as : List α} {s : σ}, checks step g s as = true → Meets step G s as
  | [], _, _ => trivial
  | a :: as, s, hc => by
    rw [checks, Bool.and_eq_true] at hc
    refine ⟨h s a hc.1, fun s' hs => meets_of_checks h ?_⟩
    have := hc.2
    rwa [hs] at this

theorem run_cons {s s' : σ} {a : α} {as : List α} (h : run step s (a :: as) = some s') :
    ∃ t, step s a = some t ∧ run step t as = some s' :=
  Option.bind_eq_some_iff.1 h

theorem run_append (s : σ) (as bs : List α) : run step s (as ++ bs) = (run step s as).bind fun t => run step t bs := by
  induction as generalizing s with
  | nil => rfl
  | cons a as ih =>
    rw [List.cons_append, run, run, Option.bind_assoc]
    exact Option.bind_congr fun t _ => ih t

theorem meets_append {G : σ → α → Prop} {s t : σ} : ∀ {as bs : List α}, Meets step G s (as ++ bs) →
    run step s as = some t → Meets step G s as ∧ Meets step G t bs := by
  intro as
  induction as generalizing s with
  | nil =>
    intro bs hg hr
    cases hr
    exact ⟨trivial, hg⟩
  | cons a as ih =>
    intro bs hg hr
    obtain ⟨u, hu, hr⟩ := run_cons hr
    refine ⟨⟨hg.1, fun v hv => ?_⟩, (ih (hg.2 u hu) hr).2⟩
    rw [hu] at hv
    cases hv
    exact (ih (hg.2 u hu) hr).1

theorem meets_append_left {G : σ → α → Prop} {s : σ} : ∀ {as bs : List α}, Meets step G s (as ++ bs) →
    Meets step G s as := by
  intro as
  induction as generalizing s with
  | nil => exact fun _ => trivial
  | cons a as ih => exact fun hg => ⟨hg.1, fun v hv => ih (hg.2 v hv)⟩

/-- **A run meets its guard when each of its actions does**, in the state in which it is taken. -/
theorem meets_iff {G : σ → α → Prop} {as : List α} {s : σ} : Meets step G s as ↔
    ∀ bs a cs t, as = bs ++ a :: cs → run step s bs = some t → G t a := by
  induction as generalizing s with
  | nil => exact iff_of_true trivial fun bs a cs t he => absurd he.symm (by simp)
  | cons a as ih =>
    constructor
    · intro hg bs b cs t he hr
      cases bs with
      | nil =>
        cases he
        cases hr
        exact hg.1
      | cons c bs =>
        cases he
        obtain ⟨u, hu, hr⟩ := run_cons hr
        exact ih.1 (hg.2 u hu) bs b cs t rfl hr
    · refine fun h => ⟨h [] a as s rfl rfl, fun t ht => ih.2 fun bs b cs u he hr => ?_⟩
      refine h (a :: bs) b cs u (congrArg (a :: ·) he) ?_
      rw [run, ht]
      exact hr

theorem meets_of_mem {G H : σ → α → Prop} : ∀ {as : List α} {s : σ}, Meets step G s as →
    (∀ s, ∀ a ∈ as, G s a → H s a) → Meets step H s as
  | [], _, _, _ => trivial
  | a :: _, s, hg, h =>
    ⟨h s a List.mem_cons_self hg.1, fun v hv => meets_of_mem (hg.2 v hv) fun t b hb => h t b (List.mem_cons_of_mem _ hb)⟩

theorem meets_of_forall {G : σ → α → Prop} (h : ∀ s a, G s a) : ∀ (as : List α) (s : σ), Meets step G s as
  | [], _ => trivial
  | a :: as, s => ⟨h s a, fun _ _ => meets_of_forall h as _⟩

/-- **An invariant of every guarded step is an invariant of every guarded run.** -/
theorem run_inv {I : σ → Prop} {G : σ → α → Prop}
    (hstep : ∀ s a s', I s → G s a → step s a = some s' → I s') :
    ∀ {as : List α} {s s' : σ}, I s → Meets step G s as → run step s as = some s' → I s' := by
  intro as
  induction as with
  | nil =>
    intro s s' hs _ hr
    cases hr
    exact hs
  | cons a as ih =>
    intro s s' hs hg hr
    obtain ⟨t, ht, hr⟩ := run_cons hr
    exact ih (hstep s a t hs hg.1 ht) (hg.2 t ht) hr

/-- Under an invariant of the guarded steps, a guard that implies another is as good as both. -/
theorem meets_of_inv {I : σ → Prop} {G H : σ → α → Prop}
    (hinv : ∀ s a s', I s → G s a → step s a = some s' → I s') (h : ∀ s a, I s → G s a → H s a) :
    ∀ {as : List α} {s : σ}, I s → Meets step G s as → Meets step H s as := by
  intro as
  induction as with
  | nil => exact fun _ _ => trivial
  | cons a as ih => exact fun hs hg => ⟨h _ a hs hg.1, fun t ht => ih (hinv _ a t hs hg.1 ht) (hg.2 t ht)⟩

/-- **Guards that agree under an invariant of the steps guarded by one of them are met by the same runs.** -/
theorem meets_congr_of_inv {I : σ → Prop} {G H : σ → α → Prop}
    (hinv : ∀ s a s', I s → H s a → step s a = some s' → I s') (h : ∀ s a, I s → (G s a ↔ H s a)) {as : List α} {s : σ}
    (hs : I s) : Meets step G s as ↔ Meets step H s as := by
  constructor
  · exact meets_of_inv (fun s a s' hi hg => hinv s a s' hi ((h s a hi).1 hg)) (fun s a hi => (h s a hi).1) hs
  · exact meets_of_inv hinv (fun s a hi => (h s a hi).2) hs

theorem run_inv' {I : σ → Prop} (hstep : ∀ s a s', I s → step s a = some s' → I s')
    {as : List α} {s s' : σ} (hs : I s) (hr : run step s as = some s') : I s' :=
  run_inv (G := fun _ _ => True) (fun s a s' h _ => hstep s a s' h) hs (meets_of_forall (fun _ _ => trivial) as s) hr

/-- **A system whose steps follow another's, or leave it where it is, goes through the other's runs.** -/
theorem exists_run_of_follows {τ β : Type*} {step' : τ → β → Option τ} {f : σ → τ}
    (hstep : ∀ s a s', step s a = some s' → f s' = f s ∨ ∃ b, step' (f s) b = some (f s')) :
    ∀ {as : List α} {s s' : σ}, run step s as = some s' → ∃ bs, run step' (f s) bs = some (f s') := by
  intro as
  induction as with
  | nil =>
    intro s s' hr
    cases hr
    exact ⟨[], rfl⟩
  | cons a as ih =>
    intro s s' hr
    obtain ⟨t, ht, hr⟩ := run_cons hr
    obtain ⟨bs, hbs⟩ := ih hr
    rcases hstep s a t ht with hf | ⟨b, hb⟩
    · exact ⟨bs, hf ▸ hbs⟩
    · refine ⟨b :: bs, ?_⟩
      rw [run, hb]
      exact hbs

/-- **A preorder that every guarded step respects relates the ends of every guarded run.** -/
theorem run_rel {I : σ → Prop} {G : σ → α → Prop} {R : σ → σ → Prop} (hrefl : ∀ s, R s s)
    (htrans : ∀ {s t u}, R s t → R t u → R s u)
    (hinv : ∀ s a s', I s → G s a → step s a = some s' → I s')
    (hrel : ∀ s a s', I s → G s a → step s a = some s' → R s s') :
    ∀ {as : List α} {s s' : σ}, I s → Meets step G s as → run step s as = some s' → R s s' := by
  intro as
  induction as with
  | nil =>
    intro s s' _ _ hr
    cases hr
    exact hrefl s
  | cons a as ih =>
    intro s s' hs hg hr
    obtain ⟨t, ht, hr⟩ := run_cons hr
    exact htrans (hrel s a t hs hg.1 ht) (ih (hinv s a t hs hg.1 ht) (hg.2 t ht) hr)

variable (step) in
/-- The system that stops where the guard is not met. -/
def guarded (g : σ → α → Bool) (s : σ) (a : α) : Option σ := if g s a then step s a else none

/-- **A run of the guarded system** is a run that meets the guard. -/
theorem of_guarded {G : σ → α → Prop} {g : σ → α → Bool} (h : ∀ s a, g s a = true → G s a) :
    ∀ {as : List α} {s s' : σ}, run (guarded step g) s as = some s' → run step s as = some s' ∧ Meets step G s as := by
  intro as
  induction as with
  | nil => exact fun hr => ⟨hr, trivial⟩
  | cons a as ih =>
    intro s s' hr
    obtain ⟨t, ht, hr⟩ := run_cons hr
    rw [guarded, Option.ite_none_right_eq_some] at ht
    obtain ⟨hg, ht⟩ := ht
    obtain ⟨hrun, hm⟩ := ih hr
    refine ⟨?_, h s a hg, fun t' ht' => ?_⟩
    · rw [run, ht]
      exact hrun
    · rw [ht] at ht'
      cases ht'
      exact hm

theorem meets_append_of {G : σ → α → Prop} : ∀ {as bs : List α} {s t : σ}, Meets step G s as → run step s as = some t →
    Meets step G t bs → Meets step G s (as ++ bs) := by
  intro as
  induction as with
  | nil =>
    intro bs s t _ hr hg
    cases hr
    exact hg
  | cons a as ih =>
    intro bs s t hg hr hg'
    obtain ⟨u, hu, hr⟩ := run_cons hr
    refine ⟨hg.1, fun v hv => ?_⟩
    rw [hu] at hv
    cases hv
    exact ih (hg.2 u hu) hr hg'

variable (step) in
/-- Some run that meets the guard leads from the one state to the other. -/
def Reaches (G : σ → α → Prop) (s t : σ) : Prop := ∃ as, Meets step G s as ∧ run step s as = some t

theorem Reaches.refl {G : σ → α → Prop} (s : σ) : Reaches step G s s := ⟨[], trivial, rfl⟩

theorem reaches_of_step {G : σ → α → Prop} {s t : σ} {a : α} (hg : G s a) (h : step s a = some t) :
    Reaches step G s t := by
  refine ⟨[a], ⟨hg, fun _ _ => trivial⟩, ?_⟩
  rw [run, h]
  rfl

theorem Reaches.trans {G : σ → α → Prop} {s t u : σ} (h : Reaches step G s t) (h' : Reaches step G t u) :
    Reaches step G s u := by
  obtain ⟨as, hg, hr⟩ := h
  obtain ⟨bs, hg', hr'⟩ := h'
  refine ⟨as ++ bs, meets_append_of hg hr hg', ?_⟩
  rw [run_append, hr]
  exact hr'

theorem Reaches.inv {I : σ → Prop} {G : σ → α → Prop} (hstep : ∀ s a s', I s → G s a → step s a = some s' → I s')
    {s t : σ} (h : Reaches step G s t) (hs : I s) : I t := by
  obtain ⟨as, hg, hr⟩ := h
  exact run_inv hstep hs hg hr

end Lts
