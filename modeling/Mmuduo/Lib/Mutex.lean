import Mathlib.Logic.Basic

/-!
This module contains the operations of an object with a mutex, as one thread executes them. A plain
mutex must not be locked by the thread that holds it. A recursive one may, so an operation on an object
with a recursive mutex is a plain function of its data.
-/

inductive MutexKind where
  | plain
  | recursive
  deriving DecidableEq, Repr

inductive LockFault where
  -- a plain mutex is locked by the thread that holds it
  | selfLock
  | undefined
  deriving DecidableEq, Repr

structure Guarded (σ : Type u) where
  data : σ
  -- how many times the thread holds the mutex
  depth : Nat

abbrev Locking (σ : Type u) := StateT (Guarded σ) (Except LockFault)

namespace Locking

variable {σ α β : Type u}

def lock (kind : MutexKind) : Locking σ PUnit := fun s =>
  if kind = .plain ∧ s.depth ≠ 0 then
    .error .selfLock
  else
    .ok (⟨⟩, { s with depth := s.depth + 1 })

def unlock : Locking σ PUnit := fun s =>
  .ok (⟨⟩, { s with depth := s.depth - 1 })

def lockGuard (kind : MutexKind) (body : Locking σ α) : Locking σ α := do
  lock kind
  let a ← body
  unlock
  return a

def lift (f : σ → Option (α × σ)) : Locking σ α := fun s =>
  match f s.data with
  | some (a, data) => .ok (a, { s with data := data })
  | none => .error .undefined

def view (f : σ → α) : Locking σ α :=
  lift fun data => some (f data, data)

theorem lockGuard_held (body : Locking σ α) {s : Guarded σ} (h : s.depth ≠ 0)
    : lockGuard .plain body s = .error .selfLock := by
  simp [lockGuard, bind, StateT.bind, Except.bind, lock, h]

theorem lockGuard_eq {kind : MutexKind} (body : Locking σ α) {s : Guarded σ}
    (h : kind = .recursive ∨ s.depth = 0)
    : lockGuard kind body s
        =
      (body { s with depth := s.depth + 1 }).map fun r =>
        (r.1, { r.2 with depth := r.2.depth - 1 }) := by
  have hlock : ¬(kind = .plain ∧ s.depth ≠ 0) := by
    rintro ⟨hplain, hheld⟩
    rcases h with hrec | hfree
    . rw [hrec] at hplain
      cases hplain
    . exact hheld hfree
  simp only [lockGuard, bind, StateT.bind, Except.bind, lock, if_neg hlock]
  cases body { s with depth := s.depth + 1 } with
  | error fault => rfl
  | ok r => rfl

theorem lockGuard_lift {kind : MutexKind} (f : σ → Option (α × σ)) {s : Guarded σ}
    (h : kind = .recursive ∨ s.depth = 0)
    : lockGuard kind (lift f) s = lift f s := by
  rw [lockGuard_eq _ h]
  simp only [lift]
  cases f s.data with
  | none => rfl
  | some r => rfl

theorem lift_congr {f g : σ → Option (α × σ)} {s : Guarded σ} (h : f s.data = g s.data)
    : lift f s = lift g s := by
  simp only [lift, h]

theorem pure_eq_lift (a : α) : (pure a : Locking σ α) = lift fun data => some (a, data) := by
  rfl

theorem view_bind (f : σ → α) (g : α → Locking σ β) (s : Guarded σ)
    : (view f >>= g) s = g (f s.data) s := by
  rfl

theorem lift_bind (f : σ → Option (α × σ)) (g : α → σ → Option (β × σ))
    : (lift f >>= fun a => lift (g a)) = lift fun data => (f data).bind fun r => g r.1 r.2 := by
  funext s
  simp only [bind, StateT.bind, Except.bind, lift]
  cases f s.data with
  | none => rfl
  | some r => rfl

theorem lockGuard_recursive_lift (f : σ → Option (α × σ))
    : lockGuard .recursive (lift f) = lift f := by
  funext s
  exact lockGuard_lift f (.inl rfl)

theorem lift_bind_congr (f : σ → Option (α × σ)) {g g' : α → Locking σ β} {s : Guarded σ}
    (h : ∀ a data, f s.data = some (a, data) → g a ⟨data, s.depth⟩ = g' a ⟨data, s.depth⟩)
    : (lift f >>= g) s = (lift f >>= g') s := by
  simp only [bind, StateT.bind, Except.bind, lift]
  cases hf : f s.data with
  | none => rfl
  | some r => exact h r.1 r.2 hf

theorem bind_error {p : Locking σ α} (g : α → Locking σ β) {s : Guarded σ} {fault : LockFault}
    (h : p s = .error fault)
    : (p >>= g) s = .error fault := by
  simp only [bind, StateT.bind, Except.bind, h]

theorem bind_apply_congr {p q : Locking σ α} (g : α → Locking σ β) {s : Guarded σ} (h : p s = q s)
    : (p >>= g) s = (q >>= g) s := by
  simp only [bind, StateT.bind, h]

theorem map_apply_congr (f : α → β) {p q : Locking σ α} {s : Guarded σ} (h : p s = q s)
    : (f <$> p) s = (f <$> q) s := by
  simp only [Functor.map, StateT.map, h]

theorem map_error (f : α → β) {p : Locking σ α} {s : Guarded σ} {fault : LockFault}
    (h : p s = .error fault)
    : (f <$> p) s = .error fault := by
  simp only [Functor.map, StateT.map, bind, Except.bind, h]

/--
`p` never locks a mutex that its thread holds, and it releases what it locks.
-/
def LockSafe (p : Locking σ α) (s : Guarded σ) : Prop :=
  p s ≠ .error .selfLock ∧ ∀ a s', p s = .ok (a, s') → s'.depth = s.depth

theorem lockSafe_lift (f : σ → Option (α × σ)) (s : Guarded σ) : LockSafe (lift f) s := by
  unfold LockSafe lift
  cases f s.data with
  | none => simp
  | some r =>
    refine ⟨by simp, ?_⟩
    intro a s' h
    cases h
    rfl

theorem lockSafe_pure (a : α) (s : Guarded σ) : LockSafe (pure a) s := by
  rw [pure_eq_lift]
  apply lockSafe_lift

theorem LockSafe.bind {p : Locking σ α} {g : α → Locking σ β} {s : Guarded σ} (hp : LockSafe p s)
    (hg : ∀ a s', p s = .ok (a, s') → LockSafe (g a) s')
    : LockSafe (p >>= g) s := by
  unfold LockSafe
  simp only [Bind.bind, StateT.bind, Except.bind]
  cases hrun : p s with
  | error fault =>
    have hfault := hp.1
    rw [hrun, ne_eq, Except.error.injEq] at hfault
    refine ⟨?_, nofun⟩
    intro h
    cases h
    exact hfault rfl
  | ok r =>
    rcases hg r.1 r.2 hrun with ⟨hfault, hdepth⟩
    refine ⟨hfault, ?_⟩
    intro a s' h
    rw [hdepth a s' h, hp.2 r.1 r.2 hrun]

theorem LockSafe.map {p : Locking σ α} {s : Guarded σ} (hp : LockSafe p s) (f : α → β)
    : LockSafe (f <$> p) s :=
  hp.bind fun a s' _ => lockSafe_pure (f a) s'

def Keeps (P : σ → Prop) (p : Locking σ α) : Prop :=
  ∀ s a s', P s.data → p s = .ok (a, s') → P s'.data

section Keeps

variable {P : σ → Prop}

theorem keeps_lift {f : σ → Option (α × σ)}
    (h : ∀ data a data', P data → f data = some (a, data') → P data')
    : Keeps P (lift f) := by
  intro s a s' hs hrun
  unfold lift at hrun
  split at hrun
  . next hf =>
    cases hrun
    exact h _ _ _ hs hf
  . cases hrun

theorem keeps_view (f : σ → α) : Keeps P (view f) := by
  apply keeps_lift
  intro data a data' hdata heq
  cases heq
  exact hdata

theorem keeps_pure (a : α) : Keeps P (pure a) :=
  keeps_view fun _ => a

theorem Keeps.bind {p : Locking σ α} {g : α → Locking σ β} (hp : Keeps P p) (hg : ∀ a, Keeps P (g a))
    : Keeps P (p >>= g) := by
  intro s b s' hs hrun
  simp only [Bind.bind, StateT.bind, Except.bind] at hrun
  cases hp' : p s with
  | error fault =>
    rw [hp'] at hrun
    cases hrun
  | ok r =>
    rw [hp'] at hrun
    exact hg r.1 r.2 b s' (hp s r.1 r.2 hs hp') hrun

theorem Keeps.map {p : Locking σ α} (hp : Keeps P p) (f : α → β) : Keeps P (f <$> p) :=
  hp.bind fun a => keeps_pure (f a)

theorem Keeps.lockGuard {body : Locking σ α} (hbody : Keeps P body) (kind : MutexKind)
    : Keeps P (lockGuard kind body) := by
  intro s a s' hs hrun
  by_cases h : kind = .recursive ∨ s.depth = 0
  . rw [lockGuard_eq body h] at hrun
    cases hbody' : body { s with depth := s.depth + 1 } with
    | error fault =>
      rw [hbody'] at hrun
      cases hrun
    | ok r =>
      rw [hbody'] at hrun
      cases hrun
      exact hbody { s with depth := s.depth + 1 } r.1 r.2 hs hbody'
  . cases kind with
    | recursive => exact absurd (.inl rfl) h
    | plain =>
      rw [lockGuard_held body fun hfree => h (.inr hfree)] at hrun
      cases hrun

end Keeps

end Locking
