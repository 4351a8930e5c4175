import Phrasebook.Proofs.Nesting
import Phrasebook.Proofs.Possibilities

/-! The weight of a phrase: the number that counting finds for it if all goes well, without the
memo, the pools being counted and the bound of machine numbers. Contents that can never be there are
not looked into. A phrase with a weight has no pool inside itself. -/

namespace Phrasebook

/-- The number of alternatives that a phrase has at most. Rules weigh as much as alternatives. -/
inductive Registry.Weighs (registry : Registry) : Phrase → Nat → Prop
  | word (text : String) : Weighs registry (.content (.word text)) 1
  | wordGroup (text : String) (modifiers : Modifiers) :
      Weighs registry (.content (.wordGroup text modifiers)) (modifiers.weight 1)
  | choice {branches : List Rule} {modifiers : Modifiers} {n : Nat} :
      branches ≠ [] → modifiers.canInclude = true → Weighs registry (.branches branches) n →
      Weighs registry (.content (.choice branches modifiers)) (modifiers.weight n)
  | skippedChoice {branches : List Rule} {modifiers : Modifiers} :
      modifiers.canInclude = false →
      Weighs registry (.content (.choice branches modifiers)) (modifiers.weight 0)
  | reference {ref : Reference} {target : Definition} {n : Nat} :
      registry.get? ref.target = some target → ref.modifiers.canInclude = true →
      Weighs registry (.pool target ref.variation ref.modifiers.argumentValue) n →
      Weighs registry (.content (.reference ref)) (ref.modifiers.weight n)
  | skippedReference {ref : Reference} :
      ref.modifiers.canInclude = false →
      Weighs registry (.content (.reference ref)) (ref.modifiers.weight 0)
  | nil : Weighs registry (.contents []) 1
  | cons {content : Content} {rest : List Content} {m n : Nat} :
      Weighs registry (.content content) m → Weighs registry (.contents rest) n →
      Weighs registry (.contents (content :: rest)) (m * n)
  | noBranch : Weighs registry (.branches []) 0
  | branch {branch : Rule} {rest : List Rule} {m n : Nat} :
      Weighs registry (.contents branch.contents) m → Weighs registry (.branches rest) n →
      Weighs registry (.branches (branch :: rest)) (m + n)
  | pool {definition : Definition} {variation argument : Option String} {rules : List Rule}
      {n : Nat} :
      definition.rulesFor variation = .ok rules → Weighs registry (.branches rules) n →
      Weighs registry (.pool definition variation argument) (doubledIf definition.varyCase n)

/-- Counting looks into all contents that may be there. -/
def Route.counted : Route where
  Enters modifiers := modifiers.canInclude = true
  Passes _ := True

theorem Definition.rulesFor_ne_nil {definition : Definition} {variation : Option String}
    {rules : List Rule} (h : definition.rulesFor variation = .ok rules) : rules ≠ [] := by
  rintro rfl
  unfold rulesFor rulesFor.nonempty at h
  split at h
  · split at h
    · contradiction
    · next hne => exact hne (List.isEmpty_iff.mpr (Except.ok.inj h))
  · split at h
    · contradiction
    · split at h
      · contradiction
      · next hne => exact hne (List.isEmpty_iff.mpr (Except.ok.inj h))

namespace Registry.Weighs

variable {registry : Registry} {n : Nat}

/-- Every content, every rule and every pool weighs something. -/
theorem pos {phrase : Phrase} (h : registry.Weighs phrase n)
    (hbranches : ∀ branches, phrase = .branches branches → branches ≠ []) : 0 < n := by
  induction h with
  | word text => exact Nat.one_pos
  | wordGroup text modifiers => exact Modifiers.weight_pos fun _ => Nat.one_pos
  | choice hne _ _ ih =>
    exact Modifiers.weight_pos fun _ => ih fun _ heq => Phrase.branches.inj heq ▸ hne
  | skippedChoice hskipped =>
    exact Modifiers.weight_pos fun hinclude => absurd hinclude (by simp [hskipped])
  | reference _ _ _ ih => exact Modifiers.weight_pos fun _ => ih nofun
  | skippedReference hskipped =>
    exact Modifiers.weight_pos fun hinclude => absurd hinclude (by simp [hskipped])
  | nil => exact Nat.one_pos
  | cons _ _ ihfirst ihrest => exact Nat.mul_pos (ihfirst nofun) (ihrest nofun)
  | noBranch => exact (hbranches [] rfl rfl).elim
  | branch _ _ ihfirst _ => exact Nat.add_pos_left (ihfirst nofun) _
  | pool hrules _ ih =>
    have hpos := ih fun _ heq => Phrase.branches.inj heq ▸ Definition.rulesFor_ne_nil hrules
    unfold doubledIf
    split <;> omega

/-- A phrase has one weight. -/
theorem unique {phrase : Phrase} {m : Nat} (h : registry.Weighs phrase m)
    (h' : registry.Weighs phrase n) : m = n := by
  induction h generalizing n with
  | word text => cases h'; rfl
  | wordGroup text modifiers => cases h'; rfl
  | choice _ hinclude _ ih =>
    cases h' with
    | choice _ _ hbranches => rw [ih hbranches]
    | skippedChoice hskipped => simp [hinclude] at hskipped
  | skippedChoice hskipped =>
    cases h' with
    | choice _ hinclude _ => simp [hinclude] at hskipped
    | skippedChoice => rfl
  | reference htarget hinclude _ ih =>
    cases h' with
    | reference hother _ hpool =>
      obtain rfl := Option.some.inj (htarget.symm.trans hother)
      rw [ih hpool]
    | skippedReference hskipped => simp [hinclude] at hskipped
  | skippedReference hskipped =>
    cases h' with
    | reference _ hinclude _ => simp [hinclude] at hskipped
    | skippedReference => rfl
  | nil => cases h'; rfl
  | cons _ _ ihfirst ihrest =>
    cases h' with
    | cons hfirst hrest => rw [ihfirst hfirst, ihrest hrest]
  | noBranch => cases h'; rfl
  | branch _ _ ihfirst ihrest =>
    cases h' with
    | branch hfirst hrest => rw [ihfirst hfirst, ihrest hrest]
  | pool hrules _ ih =>
    cases h' with
    | pool hother hbranches =>
      obtain rfl := Except.ok.inj (hrules.symm.trans hother)
      rw [ih hbranches]

/-- Below the pools that a phrase with a weight meets, there is no endless chain of uses. -/
theorem acc {phrase : Phrase} (h : registry.Weighs phrase n) :
    ∀ pool, registry.Meets .counted phrase pool → Acc (registry.Uses .counted) pool := by
  induction h with
  | word text => exact fun _ hpool => (Meets.not_word hpool).elim
  | wordGroup text modifiers => exact fun _ hpool => (Meets.not_wordGroup hpool).elim
  | choice _ _ _ ih => exact fun pool hpool => ih pool (Meets.choice_iff.mp hpool).2
  | skippedChoice hskipped =>
    intro pool hpool
    have hincluded : _ = true := (Meets.choice_iff.mp hpool).1
    rw [hskipped] at hincluded
    contradiction
  | reference htarget _ _ ih =>
    intro pool hpool
    obtain ⟨-, rfl⟩ := (Meets.reference_iff htarget).mp hpool
    exact ih _ (.pool (get?_key htarget))
  | skippedReference hskipped =>
    intro pool hpool
    cases hpool with
    | reference _ hincluded =>
      have hincluded : _ = true := hincluded
      rw [hskipped] at hincluded
      contradiction
  | nil => exact fun _ hpool => (Meets.not_nil hpool).elim
  | cons _ _ ihfirst ihrest =>
    intro pool hpool
    obtain ⟨past, next, behind, heq, -, hmeets⟩ := Meets.contents_iff.mp hpool
    rcases List.cons_eq_append_iff.mp heq with ⟨rfl, heq⟩ | ⟨past, rfl, rfl⟩
    · obtain ⟨rfl, -⟩ := List.cons.inj heq
      exact ihfirst pool hmeets
    · exact ihrest pool (.contents trivial hmeets)
  | noBranch =>
    intro pool hpool
    simp [Meets.branches_iff] at hpool
  | branch _ _ ihfirst ihrest =>
    intro pool hpool
    obtain ⟨branch, hmem, hmeets⟩ := Meets.branches_iff.mp hpool
    rcases List.mem_cons.mp hmem with rfl | hmem
    · exact ihfirst pool hmeets
    · exact ihrest pool (.branches hmem hmeets)
  | pool hrules _ ih =>
    intro pool hpool
    cases hpool with
    | pool hdefinition =>
      refine Acc.intro _ fun used huses => ?_
      exact ih used (Meets.branches_iff.mpr (huses.exists_rule hdefinition hrules))

end Registry.Weighs

end Phrasebook
