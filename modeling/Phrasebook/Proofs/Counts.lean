import Phrasebook.Proofs.Tallies
import Phrasebook.Proofs.Weights

/-! What counting tells. A number that is counted is a weight: whatever was counted before, and also
where a pool is counted inside another one. A memo may hold pools as unbounded only because they
were counted inside themselves; nothing is said of those. -/

namespace Phrasebook

open Std

namespace Registry

/-- If the count is a number, it is the weight of the phrase. -/
def Tells (registry : Registry) (phrase : Phrase) (count : Possibilities) : Prop :=
  ∀ n, count = .finite n → registry.Weighs phrase n.toNat

variable {registry : Registry}

namespace Tells

variable {phrase : Phrase} {total : Possibilities}

theorem ne_zero (h : registry.Tells phrase total)
    (hbranches : ∀ branches, phrase = .branches branches → branches ≠ []) : total ≠ 0 := by
  intro hzero
  exact absurd ((h 0 hzero).pos hbranches) (Nat.lt_irrefl 0)

theorem wordGroup (text : String) (modifiers : Modifiers) :
    registry.Tells (.content (.wordGroup text modifiers)) (modifiers.weigh 1) := by
  intro n hn
  have hweight := Possibilities.ofNat_eq_finite ((modifiers.weigh_ofNat 1).symm.trans hn)
  exact hweight ▸ .wordGroup text modifiers

theorem choice {branches : List Rule} {modifiers : Modifiers} (hne : branches ≠ [])
    (h : registry.Tells (.branches branches) total) :
    registry.Tells (.content (.choice branches modifiers)) (modifiers.weigh total) := by
  intro n hn
  cases hinclude : modifiers.canInclude with
  | true =>
    obtain ⟨x, hx, hweight⟩ := Modifiers.weigh_eq_finite hinclude hn
    exact hweight ▸ .choice hne hinclude (h x hx)
  | false => exact Modifiers.weigh_skipped hinclude hn ▸ .skippedChoice hinclude

theorem reference {ref : Reference} {target : Definition}
    (htarget : registry.get? ref.target = some target)
    (h : ref.modifiers.canInclude = true →
      registry.Tells (.pool target ref.variation ref.modifiers.argumentValue) total) :
    registry.Tells (.content (.reference ref)) (ref.modifiers.weigh total) := by
  intro n hn
  cases hinclude : ref.modifiers.canInclude with
  | true =>
    obtain ⟨x, hx, hweight⟩ := Modifiers.weigh_eq_finite hinclude hn
    exact hweight ▸ .reference htarget hinclude (h hinclude x hx)
  | false => exact Modifiers.weigh_skipped hinclude hn ▸ .skippedReference hinclude

theorem cons {content : Content} {rest : List Content} {behind : Possibilities}
    (hfirst : registry.Tells (.content content) total)
    (hrest : registry.Tells (.contents rest) behind) :
    registry.Tells (.contents (content :: rest)) (total * behind) := by
  intro n hn
  obtain ⟨x, y, hx, hy, hproduct⟩ :=
    Possibilities.mul_eq_finite (hfirst.ne_zero nofun) (hrest.ne_zero nofun) hn
  exact hproduct ▸ .cons (hfirst x hx) (hrest y hy)

theorem branch {branch : Rule} {rest : List Rule} {behind : Possibilities}
    (hfirst : registry.Tells (.contents branch.contents) total)
    (hrest : registry.Tells (.branches rest) behind) :
    registry.Tells (.branches (branch :: rest)) (total + behind) := by
  intro n hn
  obtain ⟨x, y, hx, hy, hsum⟩ := Possibilities.add_eq_finite hn
  exact hsum ▸ .branch (hfirst x hx) (hrest y hy)

theorem pool {definition : Definition} {variation argument : Option String} {rules : List Rule}
    (hrules : definition.rulesFor variation = .ok rules)
    (h : registry.Tells (.branches rules) total) :
    registry.Tells (.pool definition variation argument) (total.doubledIf definition.varyCase) := by
  intro n hn
  obtain ⟨x, hx, hdoubled⟩ := Possibilities.doubledIf_eq_finite hn
  exact hdoubled ▸ .pool hrules (h x hx)

end Tells

/-- In a valid template, what counting tells is true. -/
theorem tells_kept :
    registry.KeptByCounting fun phrase count =>
      registry.Valid phrase → registry.Tells phrase count where
  word text _ n hn := Possibilities.ofNat_eq_finite hn ▸ .word text
  wordGroup text modifiers _ := .wordGroup text modifiers
  choice htotal hvalid := (htotal hvalid.choice.2).choice hvalid.choice.1
  reference htarget hpool hvalid := by
    obtain ⟨target, hother, hvalid⟩ := hvalid.reference
    obtain rfl := Option.some.inj (htarget.symm.trans hother)
    exact .reference htarget fun hinclude => hpool hinclude hvalid
  nil _ n hn := Possibilities.ofNat_eq_finite hn ▸ .nil
  cons hfirst hrest hvalid := (hfirst hvalid.cons.1).cons (hrest hvalid.cons.2)
  noBranch _ n hn := Possibilities.ofNat_eq_finite hn ▸ .noBranch
  branch hfirst hrest hvalid := (hfirst hvalid.branch.1).branch (hrest hvalid.branch.2)
  pool hrules htotal hvalid := (htotal (hvalid.pool hrules)).pool hrules
  again _ _ _ := nofun

theorem weighs_of_countUnit (hcheck : registry.check = .ok ()) {definition : Definition}
    (hdefinition : registry.get? definition.key = some definition)
    {variation argument : Option String} {memo : CountMemo} {n : UInt64}
    (hmemo : registry.Counted memo)
    (hcount : ((registry.countUnit definition variation).run memo).1 = .ok (.finite n)) :
    registry.Weighs (.pool definition variation argument) n.toNat := by
  have htells := hmemo.fitsPool tells_kept hdefinition hcount
  exact htells.fits argument ⟨hcheck, hdefinition, htells.exists_rules⟩ n rfl

end Registry

end Phrasebook
