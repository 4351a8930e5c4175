import Phrasebook.Proofs.Ends

/-! Two computations over two kinds of state, the second of which does what the first one does. The
states stand in a relation before and after each step, so that what holds of one step holds of a
whole run. -/

namespace Phrasebook

variable {ε σ τ α β : Type}

/-- From related states, a success of the first computation has a good result, and the second one
succeeds with the same, with related states behind it; if the relation is strict, a failure of the
first one is a failure of the second in the same way. -/
def Alike (strict : Prop) (related : σ → τ → Prop) (good : α → Prop) (x : ExceptT ε (StateM σ) α)
    (y : ExceptT ε (StateM τ) α) : Prop :=
  ∀ s t, related s t → Ends x s
    (fun a s' => good a ∧ ∃ t', y.run t = (.ok a, t') ∧ related s' t')
    fun e s' => strict → ∃ t', y.run t = (.error e, t') ∧ related s' t'

namespace Alike

variable {strict : Prop} {related : σ → τ → Prop} {good : α → Prop} {good' : β → Prop}
  {x : ExceptT ε (StateM σ) α} {y : ExceptT ε (StateM τ) α}

theorem of_except {first second : Except ε α} (hok : ∀ a, first = .ok a → good a ∧ second = .ok a)
    (herror : strict → ∀ e, first = .error e → second = .error e) :
    Alike strict related good (ExceptT.mk (pure first)) (ExceptT.mk (pure second)) := by
  intro s t hrelated
  refine ends_of_except (fun a hfirst => ?_) fun e hfirst hstrict => ?_
  · obtain ⟨hgood, rfl⟩ := hok a hfirst
    exact ⟨hgood, t, rfl, hrelated⟩
  · obtain rfl := herror hstrict e hfirst
    exact ⟨t, rfl, hrelated⟩

theorem pure {a : α} (h : good a) : Alike strict related good (pure a : ExceptT ε (StateM σ) α)
    (pure a : ExceptT ε (StateM τ) α) :=
  fun _ t hrelated => ⟨h, t, rfl, hrelated⟩

/-- Where every result is good, any result may be returned. -/
theorem pure_any (a : α) : Alike strict related (fun _ => True)
    (Pure.pure a : ExceptT ε (StateM σ) α) (Pure.pure a : ExceptT ε (StateM τ) α) :=
  pure trivial

theorem throw (e : ε) : Alike strict related good (throw e : ExceptT ε (StateM σ) α)
    (throw e : ExceptT ε (StateM τ) α) :=
  fun _ t hrelated _ => ⟨t, rfl, hrelated⟩

theorem bind {f : α → ExceptT ε (StateM σ) β} {g : α → ExceptT ε (StateM τ) β}
    (h : Alike strict related good x y)
    (hf : ∀ a, good a → Alike strict related good' (f a) (g a)) :
    Alike strict related good' (x >>= f) (y >>= g) := by
  intro s t hrelated
  refine ends_bind.mpr ((h s t hrelated).mono ?_ ?_)
  · rintro a s' ⟨hgood, t', hrun, hrelated'⟩
    rw [run_bind_of_ok hrun]
    exact hf a hgood s' t' hrelated'
  · intro e s' hfails hstrict
    obtain ⟨t', hrun, hrelated'⟩ := hfails hstrict
    exact ⟨t', by rw [run_bind, hrun], hrelated'⟩

theorem get_bind {f : σ → ExceptT ε (StateM σ) α} {g : τ → ExceptT ε (StateM τ) α}
    (h : ∀ s t, related s t → Alike strict related good (f s) (g t)) :
    Alike strict related good (get >>= f) (get >>= g) :=
  fun s t hrelated => h s t hrelated s t hrelated

theorem modify {change : σ → σ} {change' : τ → τ}
    (h : ∀ s t, related s t → related (change s) (change' t)) :
    Alike strict related (fun _ => True) (modify change : ExceptT ε (StateM σ) Unit)
      (modify change' : ExceptT ε (StateM τ) Unit) :=
  fun s t hrelated => ⟨trivial, change' t, rfl, h s t hrelated⟩

theorem foldlM {γ : Type} {f : β → γ → ExceptT ε (StateM σ) β} {g : β → γ → ExceptT ε (StateM τ) β}
    (items : List γ)
    (h : ∀ b, ∀ item ∈ items, good' b → Alike strict related good' (f b item) (g b item)) {b : β}
    (hb : good' b) : Alike strict related good' (items.foldlM f b) (items.foldlM g b) := by
  induction items generalizing b with
  | nil => exact pure hb
  | cons item rest ih =>
    rw [List.foldlM_cons, List.foldlM_cons]
    refine (h b item List.mem_cons_self hb).bind fun b' hb' => ?_
    exact ih (fun b item hitem => h b item (List.mem_cons_of_mem _ hitem)) hb'

/-- What fails where the second computation runs has failed where the first one ran. -/
theorem exists_error (h : Alike strict related good x y) {s : σ} {t t' : τ} (hrelated : related s t)
    {e : ε} (hrun : y.run t = (.error e, t')) : ∃ e' s', x.run s = (.error e', s') := by
  rcases hx : x.run s with ⟨e' | a, s'⟩
  · exact ⟨e', s', rfl⟩
  · obtain ⟨-, t₁, hy, -⟩ := (h s t hrelated).of_run_ok hx
    exact nomatch hy.symm.trans hrun

end Alike

/-- Strictly related computations come to the same, and to related states. -/
theorem alike_true_iff {related : σ → τ → Prop} {good : α → Prop} {x : ExceptT ε (StateM σ) α}
    {y : ExceptT ε (StateM τ) α} :
    Alike True related good x y ↔ ∀ s t, related s t →
      (x.run s).1 = (y.run t).1 ∧ related (x.run s).2 (y.run t).2 ∧
        ∀ a, (x.run s).1 = .ok a → good a := by
  unfold Alike Ends
  refine forall₃_congr fun s t _ => ?_
  generalize x.run s = first
  generalize y.run t = second
  obtain ⟨e | a, s'⟩ := first
  · constructor
    · intro h
      obtain ⟨t', rfl, hrelated⟩ := h trivial
      exact ⟨rfl, hrelated, nofun⟩
    · rintro ⟨hresult, hrelated, -⟩ -
      exact ⟨second.2, Prod.ext hresult.symm rfl, hrelated⟩
  · constructor
    · rintro ⟨hgood, t', rfl, hrelated⟩
      exact ⟨rfl, hrelated, fun _ heq => Except.ok.inj heq ▸ hgood⟩
    · rintro ⟨hresult, hrelated, hgood⟩
      exact ⟨hgood a rfl, second.2, Prod.ext hresult.symm rfl, hrelated⟩

end Phrasebook
