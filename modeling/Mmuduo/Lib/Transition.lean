import Mathlib.Order.MinMax

/-!
This module contains transition systems whose step function is guarded and executable: `next s e` is
`some s'` if the event `e` can happen in `s` and leads to `s'`, and `none` otherwise. All choices of
a scheduler, a kernel or an allocator are part of the event, so a run is a list of events.
-/

structure LTS (σ : Type u) (ε : Type v) where
  Init : σ → Prop
  next : σ → ε → Option σ

namespace LTS

variable {σ : Type u} {ε : Type v} (sys : LTS σ ε)

def run (s : σ) : List ε → Option σ
  | [] => some s
  | e :: es => (sys.next s e).bind fun s' => run s' es

@[simp]
theorem run_nil (s : σ) : sys.run s [] = some s := by
  rfl

theorem run_cons (s : σ) (e : ε) (es : List ε)
    : sys.run s (e :: es) = (sys.next s e).bind fun s' => sys.run s' es := by
  rfl

theorem run_append (s : σ) (es es' : List ε)
    : sys.run s (es ++ es') = (sys.run s es).bind fun s' => sys.run s' es' := by
  induction es generalizing s with
  | nil => rfl
  | cons e es ih =>
    rw [List.cons_append, run_cons, run_cons, Option.bind_assoc]
    congr 1
    funext s'
    exact ih s'

inductive Reachable : σ → Prop where
  | init {s : σ} (hinit : sys.Init s) : Reachable s
  | step {s s' : σ} {e : ε} (hreach : Reachable s) (hnext : sys.next s e = some s') : Reachable s'

theorem Reachable.of_run {s s' : σ} {es : List ε} (hs : sys.Reachable s)
    (hrun : sys.run s es = some s')
    : sys.Reachable s' := by
  induction es generalizing s with
  | nil =>
    simp only [run_nil, Option.some.injEq] at hrun
    rw [← hrun]
    exact hs
  | cons e es ih =>
    rw [run_cons] at hrun
    rw [Option.bind_eq_some_iff] at hrun
    rcases hrun with ⟨s₁, hnext, hrun⟩
    exact ih (.step hs hnext) hrun

theorem Reachable.invariant {P : σ → Prop} (hinit : ∀ s, sys.Init s → P s)
    (hstep : ∀ s e s', P s → sys.next s e = some s' → P s') {s : σ} (hs : sys.Reachable s)
    : P s := by
  induction hs with
  | init h => exact hinit _ h
  | step _ hnext ih => exact hstep _ _ _ ih hnext

theorem run_invariant {I : σ → Prop} (hstep : ∀ s e s', I s → sys.next s e = some s' → I s')
    {s s' : σ} {es : List ε} (hs : I s) (hrun : sys.run s es = some s')
    : I s' := by
  induction es generalizing s with
  | nil =>
    cases hrun
    exact hs
  | cons e es ih =>
    rw [run_cons, Option.bind_eq_some_iff] at hrun
    rcases hrun with ⟨s₁, hnext, hrun⟩
    exact ih (hstep s e s₁ hs hnext) hrun

def Along (P : σ → ε → Prop) (s : σ) : List ε → Prop
  | [] => True
  | e :: es => P s e ∧ ∀ s', sys.next s e = some s' → Along P s' es

theorem along_cons {P : σ → ε → Prop} {s : σ} {e : ε} {es : List ε}
    : sys.Along P s (e :: es) ↔ P s e ∧ ∀ s', sys.next s e = some s' → sys.Along P s' es := by
  rfl

instance Along.decidable {P : σ → ε → Prop} [∀ s e, Decidable (P s e)]
    : ∀ s es, Decidable (sys.Along P s es)
  | _, [] => isTrue trivial
  | s, e :: es =>
    match h : sys.next s e with
    | none => decidable_of_iff (P s e) (by simp [along_cons, h])
    | some s' =>
      have : Decidable (sys.Along P s' es) := Along.decidable s' es
      decidable_of_iff (P s e ∧ sys.Along P s' es) (by simp [along_cons, h])

theorem Along.invariant {ok : σ → ε → Prop} {I : σ → Prop}
    (hstep : ∀ s e s', I s → ok s e → sys.next s e = some s' → I s') {s s' : σ} {es : List ε}
    (halong : sys.Along ok s es) (hs : I s) (hrun : sys.run s es = some s')
    : I s' := by
  induction es generalizing s with
  | nil =>
    cases hrun
    exact hs
  | cons e es ih =>
    rw [run_cons, Option.bind_eq_some_iff] at hrun
    rcases hrun with ⟨s₁, hnext, hrun⟩
    exact ih (halong.2 s₁ hnext) (hstep s e s₁ hs halong.1 hnext) hrun

theorem along_congr {I : σ → Prop} {P Q : σ → ε → Prop}
    (hinv : ∀ s e s', I s → sys.next s e = some s' → I s')
    (hiff : ∀ s e s', I s → sys.next s e = some s' → (P s e ↔ Q s e))
    {s s' : σ} (hs : I s) {es : List ε} (hrun : sys.run s es = some s')
    : sys.Along P s es ↔ sys.Along Q s es := by
  induction es generalizing s with
  | nil => rfl
  | cons e es ih =>
    rw [run_cons, Option.bind_eq_some_iff] at hrun
    rcases hrun with ⟨s₁, hnext, hrun⟩
    have hrest := ih (hinv s e s₁ hs hnext) hrun
    rw [along_cons, along_cons, hiff s e s₁ hs hnext, hnext]
    simp only [Option.some.injEq, forall_eq', hrest]

/--
A property that a step keeps exactly if the step is `ok`, and that is lost for good otherwise.
-/
theorem run_iff_along {I P : σ → Prop} {ok : σ → ε → Prop}
    (hinv : ∀ s e s', I s → P s → sys.next s e = some s' → P s' → I s')
    (hstep : ∀ s e s', I s → P s → sys.next s e = some s' → (P s' ↔ ok s e))
    (hlost : ∀ s e s', sys.next s e = some s' → P s' → P s)
    {s s' : σ} {es : List ε} (hs : I s) (hp : P s) (hrun : sys.run s es = some s')
    : P s' ↔ sys.Along ok s es := by
  have hbefore : ∀ es s s', sys.run s es = some s' → P s' → P s := by
    intro es
    induction es with
    | nil =>
      intro s s' hrun hp'
      cases hrun
      exact hp'
    | cons e es ih =>
      intro s s' hrun hp'
      rw [run_cons, Option.bind_eq_some_iff] at hrun
      rcases hrun with ⟨s₁, hnext, hrun⟩
      apply hlost s e s₁ hnext
      apply ih s₁ s' hrun hp'
  induction es generalizing s with
  | nil =>
    cases hrun
    exact iff_of_true hp trivial
  | cons e es ih =>
    rw [run_cons, Option.bind_eq_some_iff] at hrun
    rcases hrun with ⟨s₁, hnext, hrun⟩
    rw [along_cons, ← hstep s e s₁ hs hp hnext]
    constructor
    . intro hp'
      have hp₁ := hbefore es s₁ s' hrun hp'
      refine ⟨hp₁, ?_⟩
      intro s₂ hnext₂
      rw [hnext] at hnext₂
      cases hnext₂
      apply (ih (hinv s e s₁ hs hp hnext hp₁) hp₁ hrun).mp hp'
    . rintro ⟨hp₁, halong⟩
      apply (ih (hinv s e s₁ hs hp hnext hp₁) hp₁ hrun).mpr (halong s₁ hnext)

/--
A property that a step keeps exactly if the step is `ok` holds all the way exactly if all steps are. The
invariant `P` comes back with the property `Q`.
-/
theorem always_iff_along {P Q : σ → Prop} {ok : σ → ε → Prop} (hweaken : ∀ s, P s → Q s)
    (hstep : ∀ s e, P s → ∃ s', sys.next s e = some s' ∧ (Q s' ↔ ok s e) ∧ (Q s' → P s'))
    {s : σ} (hp : P s) (es : List ε)
    : (∀ fs s', fs <+: es → sys.run s fs = some s' → Q s') ↔ sys.Along ok s es := by
  induction es generalizing s with
  | nil =>
    apply iff_of_true _ trivial
    intro fs s' hpre hrun
    rw [List.prefix_nil.mp hpre] at hrun
    cases hrun
    exact hweaken s hp
  | cons e es ih =>
    rw [along_cons]
    rcases hstep s e hp with ⟨s₁, hnext, hiff, hback⟩
    constructor
    . intro hall
      have hq₁ : Q s₁ := by
        apply hall [e] s₁ (List.prefix_append [e] es)
        simp [run_cons, hnext]
      refine ⟨hiff.mp hq₁, ?_⟩
      intro s₂ hnext₂
      rw [hnext] at hnext₂
      cases hnext₂
      apply (ih (hback hq₁)).mp
      intro fs s' hpre hrun
      apply hall (e :: fs) s' (List.cons_prefix_cons.mpr ⟨rfl, hpre⟩)
      rw [run_cons, hnext]
      exact hrun
    . rintro ⟨hok, halong⟩ fs s' hpre hrun
      cases fs with
      | nil =>
        cases hrun
        exact hweaken s hp
      | cons f fs =>
        rcases List.cons_prefix_cons.mp hpre with ⟨rfl, htail⟩
        rw [run_cons, hnext] at hrun
        have hp₁ := hback (hiff.mpr hok)
        exact (ih hp₁).mpr (halong s₁ hnext) fs s' htail hrun

def restrict (ok : σ → ε → Prop) [∀ s e, Decidable (ok s e)] : LTS σ ε where
  Init := sys.Init
  next s e := if ok s e then sys.next s e else none

theorem restrict_next_eq_some {ok : σ → ε → Prop} [∀ s e, Decidable (ok s e)] {s s' : σ} {e : ε}
    : (sys.restrict ok).next s e = some s' ↔ ok s e ∧ sys.next s e = some s' := by
  simp only [restrict]
  split
  . next h => simp [h]
  . next h => simp [h]

theorem run_of_restrict {ok : σ → ε → Prop} [∀ s e, Decidable (ok s e)] {s s' : σ} {es : List ε}
    (hrun : (sys.restrict ok).run s es = some s')
    : sys.run s es = some s' := by
  induction es generalizing s with
  | nil => exact hrun
  | cons e es ih =>
    rw [run_cons, Option.bind_eq_some_iff] at hrun
    rcases hrun with ⟨s₁, hnext, hrun⟩
    rw [run_cons, (sys.restrict_next_eq_some.mp hnext).2]
    exact ih hrun

theorem Reachable.restrict_mono {ok ok' : σ → ε → Prop} [∀ s e, Decidable (ok s e)]
    [∀ s e, Decidable (ok' s e)] (hok : ∀ s e, ok s e → ok' s e) {s : σ}
    (hs : (sys.restrict ok).Reachable s)
    : (sys.restrict ok').Reachable s := by
  induction hs with
  | init hinit => exact .init hinit
  | step _ hnext ih =>
    rw [restrict_next_eq_some] at hnext
    exact .step ih ((sys.restrict_next_eq_some).mpr ⟨hok _ _ hnext.1, hnext.2⟩)

section Peak

variable {α : Type w} [LinearOrder α] {β : Type w'} [LinearOrder β]

def peak (f : σ → α) (s : σ) : List ε → α
  | [] => f s
  | e :: es =>
    match sys.next s e with
    | none => f s
    | some s' => max (f s) (peak f s' es)

theorem peak_cons {f : σ → α} {s s' : σ} {e : ε} (hnext : sys.next s e = some s') (es : List ε)
    : sys.peak f s (e :: es) = max (f s) (sys.peak f s' es) := by
  simp only [peak, hnext]

theorem le_peak (f : σ → α) (s : σ) (es : List ε) : f s ≤ sys.peak f s es := by
  cases es with
  | nil => exact le_refl _
  | cons e es =>
    unfold peak
    split
    . exact le_refl _
    . exact le_max_left _ _

theorem run_le_peak {I : σ → Prop} {f : σ → α} {size : σ → β} {bound : α → β}
    (hmono : ∀ x y, x ≤ y → bound x ≤ bound y)
    (hstep : ∀ s e s', I s → sys.next s e = some s' →
      I s' ∧ size s' ≤ max (size s) (bound (f s')))
    {s s' : σ} {es : List ε} (hs : I s) (hrun : sys.run s es = some s')
    : size s' ≤ max (size s) (bound (sys.peak f s es)) := by
  induction es generalizing s with
  | nil =>
    cases hrun
    exact le_max_left _ _
  | cons e es ih =>
    rw [run_cons, Option.bind_eq_some_iff] at hrun
    rcases hrun with ⟨s₁, hnext, hrun⟩
    rcases hstep s e s₁ hs hnext with ⟨hs₁, hsize⟩
    have hfst : bound (f s₁) ≤ bound (sys.peak f s₁ es) := hmono _ _ (sys.le_peak f s₁ es)
    have hpeak : bound (sys.peak f s₁ es) ≤ bound (sys.peak f s (e :: es)) := by
      apply hmono
      rw [sys.peak_cons hnext]
      exact le_max_right _ _
    calc
      size s' ≤ max (size s₁) (bound (sys.peak f s₁ es)) := ih hs₁ hrun
      _ ≤ max (max (size s) (bound (f s₁))) (bound (sys.peak f s₁ es)) := max_le_max_right _ hsize
      _ = max (size s) (bound (sys.peak f s₁ es)) := by rw [max_assoc, max_eq_right hfst]
      _ ≤ max (size s) (bound (sys.peak f s (e :: es))) := max_le_max_left _ hpeak

end Peak

section Simulation

variable {τ : Type w} {δ : Type w'} {abs : LTS τ δ}

theorem Reachable.map {f : σ → τ} (hinit : ∀ s, sys.Init s → abs.Init (f s))
    (hstep : ∀ s e s', sys.next s e = some s' → f s' = f s ∨ ∃ d, abs.next (f s) d = some (f s'))
    {s : σ} (hs : sys.Reachable s)
    : abs.Reachable (f s) := by
  induction hs with
  | init h => exact .init (hinit _ h)
  | step _ hnext ih =>
    rcases hstep _ _ _ hnext with heq | ⟨d, habs⟩
    . rw [heq]
      exact ih
    . exact .step ih habs

end Simulation

section Rank

def Stuck (s : σ) : Prop :=
  ∀ e, sys.next s e = none

/--
If some steps lower the rank until `P` holds and some others raise it by at most `cost`, a run has
at most as many of the former as the rank it starts with and the cost of the latter allow.
-/
theorem countP_add_rank_le {I P : σ → Prop} {rank : σ → Nat} {lowers raises : ε → Bool} {cost : Nat}
    (hkeep : ∀ s e s', P s → sys.next s e = some s' → P s')
    (hstep : ∀ s e s', I s → sys.next s e = some s' → I s'
      ∧ (P s' ∨ rank s' + (lowers e).toNat ≤ rank s + cost * (raises e).toNat))
    {s s' : σ} {es : List ε} (hs : I s) (hrun : sys.run s es = some s')
    : I s' ∧ (P s' ∨ es.countP lowers + rank s' ≤ rank s + cost * es.countP raises) := by
  induction es generalizing s with
  | nil =>
    cases hrun
    refine ⟨hs, Or.inr ?_⟩
    simp
  | cons e es ih =>
    rw [run_cons, Option.bind_eq_some_iff] at hrun
    rcases hrun with ⟨s₁, hnext, hrun⟩
    rcases hstep s e s₁ hs hnext with ⟨hs₁, hrank⟩
    rcases ih hs₁ hrun with ⟨hs', hrest⟩
    refine ⟨hs', ?_⟩
    rcases hrank with hp | hrank
    . exact Or.inl (sys.run_invariant hkeep hp hrun)
    . rcases hrest with hp | hrest
      . exact Or.inl hp
      . right
        have hlowers : (e :: es).countP lowers = es.countP lowers + (lowers e).toNat := by
          rw [List.countP_cons]
          cases lowers e with
          | _ => rfl
        have hraises : (e :: es).countP raises = es.countP raises + (raises e).toNat := by
          rw [List.countP_cons]
          cases raises e with
          | _ => rfl
        rw [hlowers, hraises, Nat.mul_add]
        omega

theorem length_add_rank_le {I : σ → Prop} {rank : σ → Nat}
    (hstep : ∀ s e s', I s → sys.next s e = some s' → I s' ∧ rank s' < rank s)
    {s s' : σ} {es : List ε} (hs : I s) (hrun : sys.run s es = some s')
    : I s' ∧ es.length + rank s' ≤ rank s := by
  have hcount : I s' ∧ (False ∨ es.countP (fun _ => true) + rank s'
      ≤ rank s + 0 * es.countP fun _ => false) := by
    apply sys.countP_add_rank_le (P := fun _ => False) _ _ hs hrun
    . exact fun _ _ _ h _ => h
    . intro s e s' hs hnext
      rcases hstep s e s' hs hnext with ⟨hs', hlt⟩
      exact ⟨hs', Or.inr hlt⟩
  refine ⟨hcount.1, ?_⟩
  rcases hcount.2 with hfalse | hle
  . exact hfalse.elim
  . simpa using hle

end Rank

end LTS

/-!
A history is the list of what has happened, oldest first. A property of it is stated entry by entry,
about an entry and the entries before it.
-/

namespace History

variable {α : Type u}

def Ordered (P : List α → α → Prop) (log : List α) : Prop :=
  ∀ pre e post, log = pre ++ e :: post → P pre e

theorem ordered_nil (P : List α → α → Prop) : Ordered P [] := by
  intro pre e post h
  simp at h

theorem Ordered.concat {P : List α → α → Prop} {log : List α} {e : α} (h : Ordered P log)
    (he : P log e)
    : Ordered P (log ++ [e]) := by
  intro pre e' post heq
  rcases List.eq_nil_or_concat post with hpost | ⟨post', last, hpost⟩
  . rw [hpost] at heq
    have hpre := List.append_inj_left' heq rfl
    have hlast := List.append_inj_right' heq rfl
    rw [List.cons.injEq] at hlast
    rw [← hpre, ← hlast.1]
    exact he
  . rw [hpost, List.concat_eq_append, ← List.cons_append, ← List.append_assoc] at heq
    exact h pre e' post' (List.append_inj_left' heq rfl)

theorem Ordered.of_mem {P : List α → α → Prop} {log : List α} {e : α} (h : Ordered P log)
    (hmem : e ∈ log)
    : ∃ pre, pre ⊆ log ∧ P pre e := by
  rcases List.append_of_mem hmem with ⟨pre, post, heq⟩
  refine ⟨pre, ?_, h pre e post heq⟩
  rw [heq]
  apply List.subset_append_left _ _

end History
