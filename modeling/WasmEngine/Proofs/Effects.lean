import Mathlib.Data.List.Forall2
import Mathlib.Tactic.Common

/-!
# Programs with a state that may fail

Readers, compilation, linking and execution are all programs over a state that end with a result
or an error, and always with a state. This module has the four ways in which they are reasoned
about. The first is inversion: what must have happened when a program ended with a result. The
second is `Ensures`, a condition on both endings that is built up along the program. The third is
`Agree`, which compares two programs that are run from the same state. The fourth is `Relaxes`,
which compares two programs that are run under different limits.
-/

namespace WasmEngine

variable {ε σ α β : Type}

/-! ## Inversion -/

/-- If a composed program succeeds, both parts have, one after the other. -/
theorem run_bind_eq_ok {x : EStateM ε σ α} {f : α → EStateM ε σ β} {s t : σ} {b : β} :
    (x >>= f).run s = .ok b t ↔ ∃ a s', x.run s = .ok a s' ∧ (f a).run s' = .ok b t := by
  rw [EStateM.run_bind]
  cases x.run s <;> simp

theorem run_pure_eq_ok {a b : α} {s t : σ} :
    (pure a : EStateM ε σ α).run s = .ok b t ↔ a = b ∧ s = t := by
  rw [EStateM.run_pure, EStateM.Result.ok.injEq]

theorem run_throw_eq_error (e : ε) (s : σ) : (throw e : EStateM ε σ α).run s = .error e s := rfl

/-- A program that throws does not succeed. -/
theorem run_throw_eq_ok {e : ε} {b : α} {s t : σ} :
    (throw e : EStateM ε σ α).run s = .ok b t ↔ False := by
  simp [run_throw_eq_error]

theorem run_get_eq_ok {b s t : σ} :
    (get : EStateM ε σ σ).run s = .ok b t ↔ s = b ∧ s = t := by
  rw [EStateM.run_get, EStateM.Result.ok.injEq]

theorem run_set_eq_ok {s s' t : σ} {u : PUnit} :
    (set s' : EStateM ε σ PUnit).run s = .ok u t ↔ s' = t := by
  simp only [EStateM.run_set, EStateM.Result.ok.injEq, true_and]

theorem run_modify_eq_ok {f : σ → σ} {s t : σ} {u : PUnit} :
    (modify f : EStateM ε σ PUnit).run s = .ok u t ↔ f s = t := by
  simp only [EStateM.run_modify, EStateM.Result.ok.injEq, true_and]

/-- An update that gives a value gives what the function says, and leaves that state. -/
theorem run_modifyGet_eq_ok {f : σ → α × σ} {s t : σ} {a : α} :
    (modifyGet f : EStateM ε σ α).run s = .ok a t ↔ f s = (a, t) := by
  simp only [EStateM.run_modifyGet, EStateM.Result.ok.injEq, Prod.ext_iff]

/-- The result alone, if there is one, comes from a run. -/
theorem exists_run_of_run' {x : EStateM ε σ α} {s : σ} {a : α} (h : x.run' s = some a) :
    ∃ t, x.run s = .ok a t := by
  unfold EStateM.run' at h
  split at h
  · rename_i b t heq
    obtain rfl := Option.some.inj h
    exact ⟨t, heq⟩
  · cases h

/-- A program that depends on a condition runs one of its branches. -/
theorem run_ite {c : Prop} [Decidable c] {x y : EStateM ε σ α} {s : σ} :
    (if c then x else y).run s = if c then x.run s else y.run s := by
  split <;> rfl

/-! ## Conditions on both endings -/

/-- Started in `s`, the program ends with a result and a state that satisfy `Q`, or with an error
and a state that satisfy `E`. -/
def Ensures (x : EStateM ε σ α) (s : σ) (Q : α → σ → Prop) (E : ε → σ → Prop) : Prop :=
  match x.run s with
  | .ok a t => Q a t
  | .error e t => E e t

namespace Ensures

variable {s : σ} {E : ε → σ → Prop} {Q : α → σ → Prop}

/-- What a program ensures is so when it succeeds. -/
theorem of_ok {x : EStateM ε σ α} {a : α} {t : σ} (h : Ensures x s Q E)
    (hrun : x.run s = .ok a t) : Q a t := by
  simpa only [Ensures, hrun] using h

/-- What a program ensures is so when it fails. -/
theorem of_error {x : EStateM ε σ α} {e : ε} {t : σ} (h : Ensures x s Q E)
    (hrun : x.run s = .error e t) : E e t := by
  simpa only [Ensures, hrun] using h

/-- What is known of both endings without looking into the program. -/
theorem ran (x : EStateM ε σ α) (s : σ) :
    Ensures x s (fun a t ↦ x.run s = .ok a t) fun e t ↦ x.run s = .error e t := by
  unfold Ensures
  cases x.run s <;> rfl

theorem pure {a : α} (h : Q a s) : Ensures (pure a : EStateM ε σ α) s Q E := h

theorem throw {e : ε} (h : E e s) : Ensures (throw e : EStateM ε σ α) s Q E := h

/-- Looking at the state gives the state in which the program runs. -/
theorem get_bind {f : σ → EStateM ε σ α} (h : Ensures (f s) s Q E) :
    Ensures (MonadState.get >>= f) s Q E := h

theorem modify {Q : PUnit → σ → Prop} {f : σ → σ} (h : Q ⟨⟩ (f s)) :
    Ensures (modify f : EStateM ε σ PUnit) s Q E := h

theorem modifyGet {f : σ → α × σ} (h : Q (f s).1 (f s).2) :
    Ensures (modifyGet f : EStateM ε σ α) s Q E := h

/-- A result that is known already is passed on, or its error is. -/
theorem ofExcept {r : Except ε α} (hok : ∀ a, r = .ok a → Q a s)
    (herror : ∀ e, r = .error e → E e s) : Ensures (ofExcept r : EStateM ε σ α) s Q E := by
  cases r with
  | ok a => exact hok a rfl
  | error e => exact herror e rfl

/-- The second program may rely on what the first one ensures, and a failure of either is a failure
of both. -/
theorem bind {x : EStateM ε σ α} {f : α → EStateM ε σ β} {R : β → σ → Prop}
    (hx : Ensures x s Q E) (hf : ∀ a t, Q a t → Ensures (f a) t R E) :
    Ensures (x >>= f) s R E := by
  unfold Ensures at hx ⊢
  rw [EStateM.run_bind]
  cases h : x.run s with
  | ok a t =>
    rw [h] at hx
    exact hf a t hx
  | error e t =>
    rw [h] at hx
    exact hx

/-- A program that has failed does not go on. -/
theorem throw_bind {e : ε} {f : β → EStateM ε σ α} (h : E e s) :
    Ensures (MonadExcept.throw e >>= f) s Q E := h

/-- What comes after a failure is not run. -/
theorem bind_of_fails {x : EStateM ε σ β} {f : β → EStateM ε σ α}
    (hx : Ensures x s (fun _ _ ↦ False) E) : Ensures (x >>= f) s Q E :=
  hx.bind fun _ _ hfalse ↦ hfalse.elim

/-- Each branch may use what was tested. -/
theorem ite {c : Prop} [Decidable c] {x y : EStateM ε σ α} (hx : c → Ensures x s Q E)
    (hy : ¬c → Ensures y s Q E) : Ensures (if c then x else y) s Q E := by
  split
  · rename_i h
    exact hx h
  · rename_i h
    exact hy h

/-- Less may be ensured. -/
theorem mono {x : EStateM ε σ α} {R : α → σ → Prop} {E' : ε → σ → Prop} (hx : Ensures x s Q E)
    (hQ : ∀ a t, Q a t → R a t) (hE : ∀ e t, E e t → E' e t) : Ensures x s R E' := by
  unfold Ensures at hx ⊢
  cases h : x.run s with
  | ok a t =>
    rw [h] at hx
    exact hQ a t hx
  | error e t =>
    rw [h] at hx
    exact hE e t hx

/-- The condition on errors can be left out. -/
theorem forget {x : EStateM ε σ α} (hx : Ensures x s Q E) : Ensures x s Q fun _ _ ↦ True :=
  hx.mono (fun _ _ h ↦ h) fun _ _ _ ↦ trivial

/-- Two facts about one program are one fact. -/
theorem and {x : EStateM ε σ α} {R : α → σ → Prop} {E' : ε → σ → Prop} (hQ : Ensures x s Q E)
    (hR : Ensures x s R E') :
    Ensures x s (fun a t ↦ Q a t ∧ R a t) fun e t ↦ E e t ∧ E' e t := by
  unfold Ensures at hQ hR ⊢
  cases h : x.run s with
  | ok a t =>
    rw [h] at hQ hR
    exact ⟨hQ, hR⟩
  | error e t =>
    rw [h] at hQ hR
    exact ⟨hQ, hR⟩

/-- A loop keeps an invariant over the items it has gone through. -/
theorem foldlM {f : β → α → EStateM ε σ β} (I : List α → β → σ → Prop) {l : List α}
    (hstep : ∀ done a rest b t, done ++ a :: rest = l → I done b t →
      Ensures (f b a) t (I (done ++ [a])) E) {b : β} (h : I [] b s) :
    Ensures (l.foldlM f b) s (I l) E := by
  suffices H : ∀ (rest done : List α) (b : β) (t : σ), done ++ rest = l → I done b t →
      Ensures (rest.foldlM f b) t (I l) E from H l [] b s rfl h
  intro rest
  induction rest with
  | nil =>
    intro done b t hl hI
    rw [List.append_nil] at hl
    subst hl
    exact .pure hI
  | cons a rest ih =>
    intro done b t hl hI
    rw [List.foldlM_cons]
    refine .bind (hstep done a rest b t hl hI) fun b' t' hI' ↦ ?_
    exact ih (done ++ [a]) b' t' (by simpa using hl) hI'

/-- A program that only looks at the state, item by item. -/
theorem mapM {f : α → EStateM ε σ β} {R : α → β → Prop} {l : List α}
    (hstep : ∀ a ∈ l, Ensures (f a) s (fun b t ↦ t = s ∧ R a b) E) :
    Ensures (l.mapM f) s (fun bs t ↦ t = s ∧ List.Forall₂ R l bs) E := by
  induction l with
  | nil => exact .pure ⟨rfl, .nil⟩
  | cons a l ih =>
    rw [List.mapM_cons]
    refine .bind (hstep a List.mem_cons_self) fun b t hb ↦ ?_
    obtain ⟨rfl, hab⟩ := hb
    refine .bind (ih fun a ha ↦ hstep a (List.mem_cons_of_mem _ ha)) fun bs t hbs ↦ ?_
    obtain ⟨rfl, hl⟩ := hbs
    exact .pure ⟨rfl, .cons hab hl⟩

end Ensures

/-! ## Two programs -/

/-- Started in `s`, both programs end with results that satisfy `Q`, or both with the same error,
and in both cases with the same state. -/
def Agree (x : EStateM ε σ α) (y : EStateM ε σ β) (s : σ) (Q : α → β → Prop) : Prop :=
  match x.run s, y.run s with
  | .ok a t, .ok b t' => t = t' ∧ Q a b
  | .error e t, .error e' t' => e = e' ∧ t = t'
  | _, _ => False

namespace Agree

variable {γ δ : Type} {s : σ} {x : EStateM ε σ α} {y : EStateM ε σ β} {Q : α → β → Prop}

/-- Programs that agree end in the same state, with related results or with one error. -/
theorem cases (h : Agree x y s Q) :
    (∃ a b t, x.run s = .ok a t ∧ y.run s = .ok b t ∧ Q a b) ∨
      ∃ e t, x.run s = .error e t ∧ y.run s = .error e t := by
  unfold Agree at h
  split at h
  · rename_i a t b t' hx hy
    obtain ⟨rfl, hQ⟩ := h
    exact .inl ⟨a, b, t, hx, hy, hQ⟩
  · rename_i e t e' t' hx hy
    obtain ⟨rfl, rfl⟩ := h
    exact .inr ⟨e, t, hx, hy⟩
  · exact h.elim

theorem pure {a : α} {b : β} (h : Q a b) :
    Agree (pure a : EStateM ε σ α) (pure b) s Q := ⟨rfl, h⟩

theorem throw (e : ε) : Agree (throw e : EStateM ε σ α) (throw e) s Q := ⟨rfl, rfl⟩

/-- Programs that begin alike. -/
theorem same_of_ensures {P : α → σ → Prop} {E : ε → σ → Prop} {f : α → EStateM ε σ γ}
    {g : α → EStateM ε σ δ} {R : γ → δ → Prop} (hx : Ensures x s P E)
    (hfg : ∀ a t, P a t → Agree (f a) (g a) t R) : Agree (x >>= f) (x >>= g) s R := by
  unfold Agree
  rw [EStateM.run_bind, EStateM.run_bind]
  cases hrun : x.run s with
  | ok a t => exact hfg a t (hx.of_ok hrun)
  | error e t => exact ⟨rfl, rfl⟩

/-- Where two programs begin with the same part, only what follows is to be compared. -/
theorem same {f : α → EStateM ε σ γ} {g : α → EStateM ε σ δ} {R : γ → δ → Prop}
    (hfg : ∀ a t, Agree (f a) (g a) t R) : Agree (x >>= f) (x >>= g) s R := by
  refine same_of_ensures (P := fun _ _ ↦ True) (E := fun _ _ ↦ True) ?_ fun a t _ ↦ hfg a t
  unfold Ensures
  split <;> trivial

/-- So it is where they begin with a result that is known already. -/
theorem same_ofExcept {r : Except ε α} {f : α → EStateM ε σ γ} {g : α → EStateM ε σ δ}
    {R : γ → δ → Prop} (hfg : ∀ a, Agree (f a) (g a) s R) :
    Agree (ofExcept r >>= f) (ofExcept r >>= g) s R := by
  cases r with
  | ok a => exact hfg a
  | error e => exact throw e

/-- A program that gives its result without a change of the state. -/
theorem left {a : α} {f : α → EStateM ε σ γ} {R : γ → β → Prop} (hx : x.run s = .ok a s)
    (h : Agree (f a) y s R) : Agree (x >>= f) y s R := by
  unfold Agree at h ⊢
  rwa [EStateM.run_bind, hx]

/-- Less may be said of the two results. -/
theorem mono {R : α → β → Prop} (h : Agree x y s Q) (hQ : ∀ a b, Q a b → R a b) :
    Agree x y s R := by
  unfold Agree
  obtain ⟨a, b, t, hx, hy, hab⟩ | ⟨e, t, hx, hy⟩ := h.cases
  · rw [hx, hy]
    exact ⟨rfl, hQ a b hab⟩
  · rw [hx, hy]
    exact ⟨rfl, rfl⟩

end Agree

/-! ## Two programs under different limits -/

/-- What the second of two programs may end with, given the ending of the first: the same, in a
state that `R` relates, or anything at all if the first one failed with an error of `E`. -/
inductive Relaxed (R : σ → σ → Prop) (E : ε → Prop) :
    EStateM.Result ε σ α → EStateM.Result ε σ α → Prop
  | ok (a : α) {s t : σ} (h : R s t) : Relaxed R E (.ok a s) (.ok a t)
  | error (e : ε) {s t : σ} (h : R s t) : Relaxed R E (.error e s) (.error e t)
  | excused {e : ε} {s : σ} {r : EStateM.Result ε σ α} (he : E e) : Relaxed R E (.error e s) r

/-- Started in states that `R` relates, the second program ends like the first one, unless that
fails with an error of `E`. -/
def Relaxes (R : σ → σ → Prop) (E : ε → Prop) (x y : EStateM ε σ α) : Prop :=
  ∀ s t, R s t → Relaxed R E (x.run s) (y.run t)

namespace Relaxes

variable {R : σ → σ → Prop} {E : ε → Prop} {x y : EStateM ε σ α} {f g : α → EStateM ε σ β}

theorem pure (a : α) : Relaxes R E (pure a) (pure a) := fun _ _ h ↦ .ok a h

theorem throw (e : ε) : Relaxes R E (throw e : EStateM ε σ α) (throw e) := fun _ _ h ↦ .error e h

theorem ofExcept (r : Except ε α) : Relaxes R E (ofExcept r) (ofExcept r) := by
  cases r with
  | ok a => exact pure a
  | error e => exact throw e

/-- Programs that are run under different limits go on alike, unless the first has failed with an
excuse. -/
theorem bind (hx : Relaxes R E x y) (hf : ∀ a, Relaxes R E (f a) (g a)) :
    Relaxes R E (x >>= f) (y >>= g) := by
  intro s t hst
  rw [EStateM.run_bind, EStateM.run_bind]
  have hstep := hx s t hst
  generalize x.run s = r at hstep
  generalize y.run t = r' at hstep
  cases hstep with
  | ok a h => exact hf a _ _ h
  | error e h => exact .error e h
  | excused he => exact .excused he

/-- Both look at their own states, which are related. -/
theorem get_bind {f g : σ → EStateM ε σ α} (h : ∀ s t, R s t → Relaxes R E (f s) (g t)) :
    Relaxes R E (get >>= f) (get >>= g) := fun s t hst ↦ h s t hst s t hst

theorem modify {f g : σ → σ} (h : ∀ s t, R s t → R (f s) (g t)) :
    Relaxes R E (modify f : EStateM ε σ PUnit) (modify g) :=
  fun s t hst ↦ .ok PUnit.unit (h s t hst)

theorem ite {c : Prop} [Decidable c] {x' y' : EStateM ε σ α} (hx : Relaxes R E x y)
    (hx' : Relaxes R E x' y') :
    Relaxes R E (if c then x else x') (if c then y else y') := by
  split
  · exact hx
  · exact hx'

/-- A check that both programs make, and then the rest. -/
theorem guard {p : Prop} [Decidable p] {e : ε} {f g : PUnit → EStateM ε σ α}
    (hf : Relaxes R E (f ⟨⟩) (g ⟨⟩)) :
    Relaxes R E (if p then MonadExcept.throw e >>= f else f ⟨⟩)
      (if p then MonadExcept.throw e >>= g else g ⟨⟩) :=
  ite (bind (throw e) fun _ ↦ hf) hf

/-- A check that the first program makes more strictly, with an error of `E`, and then the rest. -/
theorem check {p p' : Prop} [Decidable p] [Decidable p'] {e e' : ε} {f g : PUnit → EStateM ε σ α}
    (hp : p' → p) (he : E e) (hf : Relaxes R E (f ⟨⟩) (g ⟨⟩)) :
    Relaxes R E (if p then MonadExcept.throw e >>= f else f ⟨⟩)
      (if p' then MonadExcept.throw e' >>= g else g ⟨⟩) := by
  by_cases h : p
  · rw [if_pos h]
    exact fun _ _ _ ↦ .excused he
  · rw [if_neg h, if_neg fun h' ↦ h (hp h')]
    exact hf

/-- One and the same program, run from the same state. -/
theorem same (x : EStateM ε σ α) : Relaxes Eq E x x := by
  rintro s _ rfl
  cases x.run s with
  | ok a t => exact .ok a rfl
  | error e t => exact .error e rfl

theorem of_eq (h : x = y) : Relaxes Eq E x y := h ▸ same x

end Relaxes

/-! ## Failure without a state -/

/-- If a composed computation succeeds, both parts have. -/
theorem except_bind_eq_ok {x : Except ε α} {f : α → Except ε β} {b : β} :
    x >>= f = .ok b ↔ ∃ a, x = .ok a ∧ f a = .ok b := by
  cases x <;> simp [bind, Except.bind]

theorem except_toOption_eq_some {x : Except ε α} {a : α} (h : x.toOption = some a) : x = .ok a := by
  cases x with
  | ok a' => exact congrArg _ (Option.some.inj h)
  | error e => cases h

/-- A check that decides between a result and an error. -/
theorem except_ite_eq_ok {p : Prop} [Decidable p] {a b : α} {e : ε} :
    (if p then .ok a else .error e : Except ε α) = .ok b ↔ p ∧ b = a := by
  split <;> simp_all [eq_comm]

theorem except_ite_eq_error {p : Prop} [Decidable p] {a : α} {e e' : ε} :
    (if p then .ok a else .error e : Except ε α) = .error e' ↔ ¬p ∧ e' = e := by
  split <;> simp_all [eq_comm]

theorem except_map_eq_error {f : α → β} {x : Except ε α} {e : ε} :
    x.map f = .error e ↔ x = .error e := by
  cases x <;> simp [Except.map]

/-- A function is defined on a whole list just if it is defined on each item. -/
theorem except_mapM_eq_ok {f : α → Except ε β} {l : List α} {bs : List β} :
    l.mapM f = .ok bs ↔ List.Forall₂ (fun a b ↦ f a = .ok b) l bs := by
  induction l generalizing bs with
  | nil => simp [pure, Except.pure, eq_comm]
  | cons a l ih =>
    rw [List.mapM_cons]
    cases ha : f a with
    | error e => simp [bind, Except.bind, List.forall₂_cons_left_iff, ha]
    | ok b =>
      cases hl : l.mapM f with
      | error e =>
        have hnone : ∀ bs, ¬List.Forall₂ (fun a b ↦ f a = .ok b) l bs := by
          intro bs h
          have := ih.mpr h
          rw [hl] at this
          cases this
        simp [bind, Except.bind, List.forall₂_cons_left_iff, hnone]
      | ok bs' =>
        have hiff : ∀ bs, List.Forall₂ (fun a b ↦ f a = .ok b) l bs ↔ bs' = bs := by
          intro bs
          rw [← ih, hl, Except.ok.injEq]
        simp [bind, Except.bind, pure, Except.pure, List.forall₂_cons_left_iff, ha, hiff,
          eq_comm]

/-- If it is not, there is an item to blame. -/
theorem except_mapM_eq_error {f : α → Except ε β} {l : List α} {e : ε}
    (h : l.mapM f = .error e) : ∃ a ∈ l, f a = .error e := by
  induction l with
  | nil => cases h
  | cons a l ih =>
    rw [List.mapM_cons] at h
    cases ha : f a with
    | error e' =>
      rw [ha] at h
      cases h
      exact ⟨a, List.mem_cons_self, ha⟩
    | ok b =>
      rw [ha] at h
      cases hl : l.mapM f with
      | error e' =>
        rw [hl] at h
        cases h
        obtain ⟨a', ha', hf⟩ := ih hl
        exact ⟨a', List.mem_cons_of_mem a ha', hf⟩
      | ok bs =>
        rw [hl] at h
        cases h

end WasmEngine
