/-! What a run of a computation that may fail, and that keeps its state when it does, comes to.
`Ends` is the weakest condition on the state before a run under which the run ends as wanted: a
failure that nothing is wanted of gives partial correctness, and a failure that is ruled out gives
total correctness. -/

namespace Phrasebook

variable {ε σ α β : Type}

/-- Run from the state `s`, the computation succeeds with a result and a state that have `post`, or
fails with an error and a state that have `failed`. -/
def Ends (x : ExceptT ε (StateM σ) α) (s : σ) (post : α → σ → Prop) (failed : ε → σ → Prop) :
    Prop :=
  match x.run s with
  | (.ok a, s') => post a s'
  | (.error e, s') => failed e s'

/-- Run from the state `s`, the computation may fail; a success has `post`. -/
abbrev Gives (x : ExceptT ε (StateM σ) α) (s : σ) (post : α → σ → Prop) : Prop :=
  Ends x s post fun _ _ => True

/-- Run from the state `s`, the computation succeeds, with `post`. -/
abbrev Succeeds (x : ExceptT ε (StateM σ) α) (s : σ) (post : α → σ → Prop) : Prop :=
  Ends x s post fun _ _ => False

section Rules

variable {x : ExceptT ε (StateM σ) α} {f : α → ExceptT ε (StateM σ) β} {s s' : σ}
  {failed : ε → σ → Prop}

theorem ends_pure {a : α} {post : α → σ → Prop} :
    Ends (pure a : ExceptT ε (StateM σ) α) s post failed ↔ post a s := Iff.rfl

theorem ends_get {post : σ → σ → Prop} :
    Ends (get : ExceptT ε (StateM σ) σ) s post failed ↔ post s s := Iff.rfl

theorem ends_modify {change : σ → σ} {post : Unit → σ → Prop} :
    Ends (modify change : ExceptT ε (StateM σ) Unit) s post failed ↔ post () (change s) := Iff.rfl

theorem ends_modifyGet {change : σ → α × σ} {post : α → σ → Prop} :
    Ends (modifyGet change : ExceptT ε (StateM σ) α) s post failed ↔
      post (change s).1 (change s).2 := Iff.rfl

theorem run_bind : (x >>= f).run s = match x.run s with
    | (.ok a, s') => (f a).run s'
    | (.error e, s') => (.error e, s') := by
  rw [ExceptT.run_bind]
  show (match (x.run s).1 with
    | .ok a => (f a).run
    | .error e => (pure (.error e) : StateM σ (Except ε β))) (x.run s).2 = _
  rcases x.run s with ⟨e | a, s'⟩ <;> rfl

/-- Behind a success the second computation runs, and a failure is that of the whole. -/
theorem ends_bind {post : β → σ → Prop} :
    Ends (x >>= f) s post failed ↔ Ends x s (fun a s' => Ends (f a) s' post failed) failed := by
  unfold Ends
  rw [run_bind]
  rcases x.run s with ⟨e | a, s'⟩ <;> rfl

theorem Ends.mono {post post' : α → σ → Prop} {failed' : ε → σ → Prop}
    (h : Ends x s post failed) (hpost : ∀ a s', post a s' → post' a s')
    (hfailed : ∀ e s', failed e s' → failed' e s') : Ends x s post' failed' := by
  unfold Ends at h ⊢
  split
  · next heq => rw [heq] at h; exact hpost _ _ h
  · next heq => rw [heq] at h; exact hfailed _ _ h

theorem Ends.and {post post' : α → σ → Prop} {failed' : ε → σ → Prop} (h : Ends x s post failed)
    (h' : Ends x s post' failed') :
    Ends x s (fun a s' => post a s' ∧ post' a s') fun e s' => failed e s' ∧ failed' e s' := by
  unfold Ends at h h' ⊢
  split
  · next heq => rw [heq] at h h'; exact ⟨h, h'⟩
  · next heq => rw [heq] at h h'; exact ⟨h, h'⟩

theorem Ends.bind {mid : α → σ → Prop} {post : β → σ → Prop} (h : Ends x s mid failed)
    (hf : ∀ a s', mid a s' → Ends (f a) s' post failed) : Ends (x >>= f) s post failed :=
  ends_bind.mpr (h.mono hf fun _ _ he => he)

theorem Ends.of_run_ok {post : α → σ → Prop} {a : α} (h : Ends x s post failed)
    (hrun : x.run s = (.ok a, s')) : post a s' := by
  unfold Ends at h
  rwa [hrun] at h

theorem run_bind_of_ok {a : α} (h : x.run s = (.ok a, s')) : (x >>= f).run s = (f a).run s' := by
  rw [run_bind, h]

/-- A second part that does not look at the state ends alike behind a first part that does. -/
theorem run_bind_fst_congr (h : (x.run s).1 = (x.run s').1)
    (hf : ∀ a t t', ((f a).run t).1 = ((f a).run t').1) :
    ((x >>= f).run s).1 = ((x >>= f).run s').1 := by
  rw [run_bind, run_bind]
  generalize x.run s = first at h ⊢
  generalize x.run s' = second at h ⊢
  obtain ⟨r, t⟩ := first
  obtain ⟨r', t'⟩ := second
  obtain rfl : r = r' := h
  cases r with
  | error e => rfl
  | ok a => exact hf a t t'

theorem run_get_bind {g : σ → ExceptT ε (StateM σ) β} : (get >>= g).run s = (g s).run s := rfl

/-- Of a success it can be said that the run came to it. -/
theorem gives_run (x : ExceptT ε (StateM σ) α) (s : σ) :
    Gives x s fun a s' => x.run s = (.ok a, s') := by
  unfold Gives Ends
  split
  · next heq => exact heq
  · trivial

/-- What has nothing to do with the state leaves it as it is. -/
theorem ends_of_except {r : Except ε α} {post : α → σ → Prop} (hok : ∀ a, r = .ok a → post a s)
    (herror : ∀ e, r = .error e → failed e s) :
    Ends (ExceptT.mk (pure r) : ExceptT ε (StateM σ) α) s post failed := by
  cases r with
  | error e => exact herror e rfl
  | ok a => exact hok a rfl

theorem gives_of_except {r : Except ε α} {post : α → σ → Prop} (h : ∀ a, r = .ok a → post a s) :
    Gives (ExceptT.mk (pure r) : ExceptT ε (StateM σ) α) s post :=
  ends_of_except h fun _ _ => trivial

theorem Succeeds.exists_run {post : α → σ → Prop} (h : Succeeds x s post) :
    ∃ a s', x.run s = (.ok a, s') ∧ post a s' := by
  unfold Succeeds Ends at h
  rcases hrun : x.run s with ⟨e | a, s'⟩
  · rw [hrun] at h; exact h.elim
  · rw [hrun] at h; exact ⟨a, s', rfl, h⟩

theorem Ends.of_run_error {post : α → σ → Prop} {e : ε} (h : Ends x s post failed)
    (hrun : x.run s = (.error e, s')) : failed e s' := by
  unfold Ends at h
  rwa [hrun] at h

theorem Ends.state {left : σ → Prop} (h : Ends x s (fun _ => left) fun _ => left) :
    left (x.run s).2 := by
  unfold Ends at h
  split at h
  · next heq => rwa [heq]
  · next heq => rwa [heq]

end Rules

/-- From every state, the computation fails at most with errors that are allowed. -/
def FailsWithin (allowed : ε → Prop) (x : ExceptT ε (StateM σ) α) : Prop :=
  ∀ s, Ends x s (fun _ _ => True) fun e _ => allowed e

namespace FailsWithin

variable {allowed : ε → Prop} {x : ExceptT ε (StateM σ) α} {f : α → ExceptT ε (StateM σ) β}

theorem pure (a : α) : FailsWithin allowed (Pure.pure a : ExceptT ε (StateM σ) α) :=
  fun _ => trivial

theorem bind (h : FailsWithin allowed x) (hf : ∀ a, FailsWithin allowed (f a)) :
    FailsWithin allowed (x >>= f) :=
  fun s => (h s).bind fun a s' _ => hf a s'

theorem mono {allowed' : ε → Prop} (h : FailsWithin allowed x)
    (hallowed : ∀ e, allowed e → allowed' e) : FailsWithin allowed' x :=
  fun s => (h s).mono (fun _ _ h => h) fun e _ => hallowed e

end FailsWithin

/-- A fold keeps what each of its steps keeps. The invariant may speak about the items behind it. -/
theorem Ends.foldlM {f : β → α → ExceptT ε (StateM σ) β} {failed : ε → σ → Prop}
    (inv : List α → β → σ → Prop) (items : List α)
    (hstep : ∀ past item rest b s, items = past ++ item :: rest → inv past b s →
      Ends (f b item) s (inv (past ++ [item])) failed) {b : β} {s : σ} (h : inv [] b s) :
    Ends (items.foldlM f b) s (inv items) failed := by
  -- The items are split into those behind the fold and those before it.
  suffices ∀ todo past b s, items = past ++ todo → inv past b s →
      Ends (todo.foldlM f b) s (inv items) failed from this items [] b s rfl h
  intro todo
  induction todo with
  | nil =>
    intro past b s hitems hinv
    rw [List.append_nil] at hitems
    exact hitems ▸ hinv
  | cons item rest ih =>
    intro past b s hitems hinv
    rw [List.foldlM_cons]
    refine (hstep past item rest b s hitems hinv).bind fun b' s' hinv' => ?_
    exact ih (past ++ [item]) b' s' (by simpa using hitems) hinv'

/-! ### Computations that keep no state -/

theorem bind_eq_ok_iff {x : Except ε α} {f : α → Except ε β} {b : β} :
    x >>= f = .ok b ↔ ∃ a, x = .ok a ∧ f a = .ok b := by
  cases x <;> simp [bind, Except.bind]

theorem bind_eq_error_iff {x : Except ε α} {f : α → Except ε β} {error : ε} :
    x >>= f = .error error ↔ x = .error error ∨ ∃ a, x = .ok a ∧ f a = .error error := by
  cases x <;> simp [bind, Except.bind]

theorem seq_eq_ok_iff {x : Except ε Unit} {y : Except ε β} {b : β} :
    (x >>= fun _ => y) = .ok b ↔ x = .ok () ∧ y = .ok b := by
  cases x <;> simp [bind, Except.bind]

theorem throw_bind {error : ε} {f : α → Except ε β} :
    (throw error : Except ε α) >>= f = .error error := rfl

theorem guard_eq_ok_iff {p : Prop} [Decidable p] {error : ε} :
    (if p then throw error else pure () : Except ε Unit) = .ok () ↔ ¬p := by
  split <;> simp_all [throw, throwThe, MonadExceptOf.throw, pure, Except.pure]

theorem forM_eq_ok_iff {items : List α} {check : α → Except ε Unit} :
    items.forM check = .ok () ↔ ∀ item ∈ items, check item = .ok () := by
  induction items with
  | nil => simp [pure, Except.pure]
  | cons item rest ih =>
    show (check item >>= fun _ => rest.forM check) = .ok () ↔ _
    rw [seq_eq_ok_iff, ih, List.forall_mem_cons]

/-- A list of checks fails as one of them does. -/
theorem exists_of_forM_eq_error {items : List α} {check : α → Except ε Unit} {error : ε}
    (h : items.forM check = .error error) : ∃ item ∈ items, check item = .error error := by
  induction items with
  | nil => contradiction
  | cons item rest ih =>
    rcases bind_eq_error_iff.mp h with h | ⟨_, -, h⟩
    · exact ⟨item, List.mem_cons_self, h⟩
    · obtain ⟨other, hother, hfault⟩ := ih h
      exact ⟨other, List.mem_cons_of_mem _ hother, hfault⟩

theorem exists_ok_of_map_toOption {x : Except ε α} {f : α → β} {b : β}
    (h : x.toOption.map f = some b) : ∃ a, x = .ok a ∧ f a = b := by
  cases x with
  | error e => contradiction
  | ok a => exact ⟨a, rfl, Option.some.inj h⟩

theorem eq_error_of_match {x : Except ε α} {error : ε}
    (h : (match x with | .error e => some e | .ok _ => none) = some error) : x = .error error := by
  cases x with
  | error e => rw [Option.some.inj h]
  | ok a => contradiction

end Phrasebook
