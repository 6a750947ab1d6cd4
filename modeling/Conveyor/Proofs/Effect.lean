import Conveyor.Session

/-!
Running steps that change a state and may fail. What comes after a step that succeeds runs from the
state that the step left; what comes after a step that fails does not run.
-/

namespace Conveyor

theorem ok_of_bind_ok {ε : Type u} {α β : Type v} {x : Except ε α} {f : α → Except ε β} {b : β}
    (h : (x >>= f) = .ok b) : ∃ a, x = .ok a ∧ f a = .ok b := by
  cases x with
  | error e => cases h
  | ok a => exact ⟨a, rfl, h⟩

theorem error_of_bind_error {ε : Type u} {α β : Type v} {x : Except ε α} {f : α → Except ε β} {e : ε}
    (h : (x >>= f) = .error e) : x = .error e ∨ ∃ a, x = .ok a ∧ f a = .error e := by
  cases x with
  | error e' =>
      cases h
      exact .inl rfl
  | ok a => exact .inr ⟨a, rfl, h⟩

/-- What every step of a fold keeps holds of its answer. -/
theorem foldlM_ok {ε : Type u} {α : Type w} {β : Type v} {f : β → α → Except ε β} {P : β → Prop}
    (step : ∀ a b b', f b a = .ok b' → P b → P b') {l : List α} {b b' : β}
    (h : l.foldlM f b = .ok b') (start : P b) : P b' := by
  induction l generalizing b with
  | nil =>
      cases h
      exact start
  | cons a rest ih =>
      rw [List.foldlM_cons] at h
      obtain ⟨next, hnext, h⟩ := ok_of_bind_ok h
      exact ih h (step a b next hnext start)

/-- Questions that are all answered. -/
theorem mapM_eq_ok {ε : Type u} {α : Type w} {β : Type v} {f : α → Except ε β} {g : α → β} {l : List α}
    (h : ∀ a ∈ l, f a = .ok (g a)) : l.mapM f = .ok (l.map g) := by
  induction l with
  | nil => rfl
  | cons a rest ih =>
      rw [List.mapM_cons, h a (by simp), ih fun b hb => h b (List.mem_cons_of_mem a hb)]
      rfl

theorem mapM_congr {ε : Type u} {α : Type w} {β : Type v} {f g : α → Except ε β} {l : List α}
    (h : ∀ a ∈ l, f a = g a) : l.mapM f = l.mapM g := by
  induction l with
  | nil => rfl
  | cons a rest ih => rw [List.mapM_cons, List.mapM_cons, h a (by simp), ih fun b hb => h b (by simp [hb])]

theorem of_mapM_eq_ok {ε : Type u} {α : Type w} {β : Type v} {f : α → Except ε β} {l : List α}
    {answers : List β} (h : l.mapM f = .ok answers) : ∀ a ∈ l, ∃ b, f a = .ok b := by
  induction l generalizing answers with
  | nil => simp
  | cons a rest ih =>
      rw [List.mapM_cons] at h
      obtain ⟨b, hb, h⟩ := ok_of_bind_ok h
      obtain ⟨bs, hbs, -⟩ := ok_of_bind_ok h
      exact List.forall_mem_cons.mpr ⟨⟨b, hb⟩, ih hbs⟩

/-- Every answer to a list of questions is the answer to one of them. -/
theorem mem_of_mapM_eq_ok {ε : Type u} {α : Type w} {β : Type v} {f : α → Except ε β} {l : List α}
    {answers : List β} (h : l.mapM f = .ok answers) : ∀ b ∈ answers, ∃ a ∈ l, f a = .ok b := by
  induction l generalizing answers with
  | nil =>
      cases h
      simp
  | cons a rest ih =>
      rw [List.mapM_cons] at h
      obtain ⟨b, hb, h⟩ := ok_of_bind_ok h
      obtain ⟨bs, hbs, h⟩ := ok_of_bind_ok h
      cases h
      refine List.forall_mem_cons.mpr ⟨⟨a, List.mem_cons_self, hb⟩, fun c hc => ?_⟩
      obtain ⟨other, mem, found⟩ := ih hbs c hc
      exact ⟨other, List.mem_cons_of_mem a mem, found⟩

theorem of_mapM_eq_error {ε : Type u} {α : Type w} {β : Type v} {f : α → Except ε β} {l : List α} {e : ε}
    (h : l.mapM f = .error e) : ∃ a ∈ l, f a = .error e := by
  induction l with
  | nil => cases h
  | cons a rest ih =>
      rw [List.mapM_cons] at h
      rcases error_of_bind_error h with h | ⟨b, -, h⟩
      · exact ⟨a, List.mem_cons_self, h⟩
      · rcases error_of_bind_error h with h | ⟨bs, -, h⟩
        · obtain ⟨other, mem, h⟩ := ih h
          exact ⟨other, List.mem_cons_of_mem a mem, h⟩
        · cases h

variable {ε ς α β : Type}

theorem run_bind {x : StateM ς α} {f : α → StateM ς β} {s s' : ς} {a : α} (h : x.run s = (a, s')) :
    (x >>= f).run s = (f a).run s' := by
  rw [StateT.run_bind, h]
  rfl

theorem run_bind_ok {x : ExceptT ε (StateM ς) α} {f : α → ExceptT ε (StateM ς) β} {s s' : ς} {a : α}
    (h : x.run.run s = (.ok a, s')) : (x >>= f).run.run s = (f a).run.run s' := by
  simp only [ExceptT.run_bind, StateT.run_bind, h]
  rfl

theorem run_bind_error {x : ExceptT ε (StateM ς) α} {f : α → ExceptT ε (StateM ς) β} {s s' : ς}
    {e : ε} (h : x.run.run s = (.error e, s')) : (x >>= f).run.run s = (.error e, s') := by
  simp only [ExceptT.run_bind, StateT.run_bind, h]
  rfl

theorem run_ok_of_bind_ok {x : ExceptT ε (StateM ς) α} {f : α → ExceptT ε (StateM ς) β} {s s' : ς}
    {b : β} (h : (x >>= f).run.run s = (.ok b, s')) :
    ∃ a s₁, x.run.run s = (.ok a, s₁) ∧ (f a).run.run s₁ = (.ok b, s') := by
  match hx : x.run.run s with
  | (.ok a, s₁) =>
      rw [run_bind_ok hx] at h
      exact ⟨a, s₁, rfl, h⟩
  | (.error e, s₁) =>
      rw [run_bind_error hx] at h
      cases h

@[simp] theorem run_pure (a : α) (s : ς) :
    (pure a : ExceptT ε (StateM ς) α).run.run s = (.ok a, s) := rfl

@[simp] theorem run_throw (e : ε) (s : ς) :
    (throw e : ExceptT ε (StateM ς) α).run.run s = (.error e, s) := rfl

@[simp] theorem run_get (s : ς) :
    (get : ExceptT ε (StateM ς) ς).run.run s = (.ok s, s) := rfl

@[simp] theorem run_modify (f : ς → ς) (s : ς) :
    (modify f : ExceptT ε (StateM ς) PUnit).run.run s = (.ok ⟨⟩, f s) := rfl

namespace Action

variable {σ : Type}

@[simp] theorem run_ask (f : FileTree → Except Fault α) (w : World σ) :
    (ask f).run.run w = (f w.files, w) := rfl

theorem run_ask_of {f : FileTree → Except Fault α} {w : World σ} {answer : Except Fault α}
    (h : f w.files = answer) : (ask f).run.run w = (answer, w) := by
  rw [run_ask, h]

/-- A question leaves everything as it is; what comes after it runs with the answer, if there is one. -/
theorem run_ask_bind (f : FileTree → Except Fault α) (k : α → Action σ β) (w : World σ) :
    (ask f >>= k).run.run w = match f w.files with
      | .ok a => (k a).run.run w
      | .error e => (.error e, w) := by
  cases answer : f w.files with
  | ok a => exact run_bind_ok (run_ask_of answer)
  | error e => exact run_bind_error (run_ask_of answer)

@[simp] theorem run_onFiles (f : FileTree → Except Fault α × FileTree) (w : World σ) :
    (onFiles f).run.run w = ((f w.files).1, { w with files := (f w.files).2 }) := rfl

@[simp] theorem run_attempt (work : Action σ α) (w : World σ) :
    (attempt work).run.run w = (.ok (work.run.run w).1, (work.run.run w).2) := rfl

theorem run_change_ok {l : Location} {f : FileTree → Except Refusal FileTree} {w : World σ}
    {t : FileTree} (h : f w.files = .ok t) :
    (change l f).run.run w = (.ok (), { w with files := t }) := by
  simp only [change, run_onFiles, h]

end Action

namespace JobStep

variable {σ : Type}

@[simp] theorem run_ask (f : FileTree → Except JobFailure α) (s : Session σ) :
    (ask f).run.run s = (f s.world.files, s) := rfl

@[simp] theorem run_ofAction (a : Action σ α) (s : Session σ) :
    (ofAction a).run.run s =
      ((a.run.run s.world).1.mapError .ofFault, { s with world := (a.run.run s.world).2 }) := rfl

end JobStep

namespace RunStep

variable {σ : Type}

theorem run_ofAction {a : Action σ α} {s : Session σ} {answer : Except Fault α} {w : World σ}
    (h : a.run.run s.world = (answer, w)) :
    (ofAction a).run.run s = (answer, { s with world := w }) := by
  unfold ofAction
  simp only [ExceptT.run_mk]
  show (match a.run.run s.world with
    | (answer, w) => (answer, { s with world := w })) = _
  rw [h]

theorem run_ofState {a : StateM (Session σ) α} {s s' : Session σ} {b : α} (h : a.run s = (b, s')) :
    (ofState a).run.run s = (.ok b, s') := by
  show (match a.run s with
    | (b, s') => (Except.ok b, s')) = _
  rw [h]

@[simp] theorem run_ofExcept (answer : Except Fault α) (s : Session σ) :
    (MonadExcept.ofExcept answer : RunStep σ α).run.run s = (answer, s) := by
  cases answer <;> rfl

end RunStep

end Conveyor
