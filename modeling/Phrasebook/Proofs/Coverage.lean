import Phrasebook.Proofs.Batches
import Phrasebook.Proofs.Mentions

/-! The table of synonyms that comes with a batch covers its examples: each mention lies inside the
text, and what it covers is listed for its canonical value. What a mention covers is recorded when the
mention is made, and again when the case of the text changes. It is not recorded again when a value is
put in the place of a marker, so that the table covers what is generated only where the markers of a
template spare the mentions and their canonical values. -/

namespace Phrasebook

open Std

namespace Synonyms

variable {table : Synonyms}

abbrev CoversResults (table : Synonyms) (all : List Expansion) : Prop :=
  ∀ expansion ∈ all, table.Covers expansion.result

namespace CoversResults

variable {left right : List Expansion}

theorem distinct (h : table.CoversResults left) : table.CoversResults (distinct left) :=
  fun expansion hexpansion => h expansion (mem_distinct.mp hexpansion)

theorem append (hleft : table.CoversResults left) (hright : table.CoversResults right) :
    table.CoversResults (left ++ right) :=
  List.forall_mem_append.mpr ⟨hleft, hright⟩

theorem pairs (hleft : table.CoversResults left) (hright : table.CoversResults right) :
    table.CoversResults (Expansion.pairs left right) := by
  intro pair hpair
  obtain ⟨first, hfirst, hpair⟩ := List.mem_flatMap.mp hpair
  obtain ⟨second, hsecond, hpair⟩ := List.mem_filterMap.mp hpair
  obtain ⟨decisions, -, rfl⟩ := Option.map_eq_some_iff.mp hpair
  exact (hleft first hfirst).append (hright second hsecond)

end CoversResults

/-- A finished text is covered if the text of a slot was recorded, and the markers in any other text
spare its mentions. -/
theorem Covers.finish {definition : Definition} {rule : Rule} {argument : Option String}
    {variant finished : Example} (h : table.Covers variant)
    (hfinish : definition.finish rule argument variant = .ok finished)
    (hrecorded : definition.isSlot = true → table.Notes finished)
    (hspares : ∀ name value, definition.isSlot = false → definition.argumentName = some name →
      argument = some value → Marker.Spares ⟨name⟩ value variant) :
    table.Covers finished := by
  rcases Definition.finish_eq_ok hfinish with ⟨hslot, e, value, rfl⟩ | ⟨hslot, rfl | hbound⟩
  · exact ⟨Example.isValid_asMention _ _ _, hrecorded hslot⟩
  · exact h
  · obtain ⟨name, value, hname, hargument, rfl⟩ := hbound
    have hspares := hspares name value hslot hname hargument
    -- A mention that is moved covers what it covered before, for the same value.
    refine ⟨hspares.clears.isValid_substitute h.isValid, fun moved hmoved surface hsurface => ?_⟩
    obtain ⟨mention, hmention, hcanonical, hsame⟩ := hspares.of_mem_substitute h.isValid hmoved
    rw [hcanonical]
    exact h.notes mention hmention surface (hsame ▸ hsurface)

end Synonyms

namespace Modifiers

variable {modifiers : Modifiers} {base : List Expansion} {table : Synonyms}

theorem of_mem_presentVariants {variant : Expansion}
    (h : variant ∈ modifiers.presentVariants base) :
    ∃ expansion ∈ base, variant.result ∈ expansion.result.caseVariants modifiers.varyCase := by
  obtain ⟨expansion, hexpansion, hvariant⟩ := List.mem_flatMap.mp h
  split at hvariant
  · contradiction
  · obtain ⟨e, he, rfl⟩ := List.mem_map.mp hvariant
    exact ⟨expansion, hexpansion, he⟩

theorem Noted.covers (hnoted : modifiers.Noted base table) (hbase : table.CoversResults base) :
    table.CoversResults (modifiers.alternatives base) := by
  refine Synonyms.CoversResults.distinct (Synonyms.CoversResults.append ?_ ?_)
  · intro expansion hexpansion
    obtain ⟨variant, hvariant, rfl⟩ := List.mem_map.mp hexpansion
    by_cases hinclude : modifiers.canInclude
    · rw [if_pos hinclude] at hvariant
      obtain ⟨original, horiginal, hcase⟩ := of_mem_presentVariants hvariant
      exact ((hbase original horiginal).of_mem_caseVariants hcase
        fun hvary => hnoted hvary hinclude variant hvariant).addSpace modifiers
    · rw [if_neg hinclude] at hvariant
      contradiction
  · intro expansion hexpansion
    split at hexpansion
    · exact List.mem_singleton.mp hexpansion ▸ .empty
    · contradiction

theorem noted_nil (modifiers : Modifiers) (table : Synonyms) : modifiers.Noted [] table :=
  fun _ _ _ hvariant => nomatch hvariant

end Modifiers

namespace Registry

variable {registry : Registry} {phrase : Phrase}

/-- What is enumerated is covered by the table in which it was recorded on the way. -/
theorem Expands.covers {limit : Nat} {table : Synonyms} {all : List Expansion}
    (hspares : ∀ marker value e, registry.Binds marker value e → marker.Spares value e)
    (h : registry.Expands limit table phrase all) (hholds : registry.Holds phrase) :
    table.CoversResults all := by
  induction h with
  | word text => exact List.forall_mem_singleton.mpr (.ofText text)
  | wordGroup hnoted => exact hnoted.covers (List.forall_mem_singleton.mpr (.ofText _))
  | choice _ _ _ hnoted ih => exact hnoted.covers (ih hholds.choice).distinct
  | skippedChoice _ _ => exact (Modifiers.noted_nil _ table).covers nofun
  | reference htarget _ _ hnoted ih => exact hnoted.covers (ih (hholds.reference htarget))
  | skippedReference _ _ => exact (Modifiers.noted_nil _ table).covers nofun
  | nil => exact List.forall_mem_singleton.mpr .empty
  | concat _ _ _ ihbefore ihall =>
    have hbefore := ihbefore fun content hcontent =>
      hholds content (List.mem_append_left _ hcontent)
    have hall := ihall (hholds.content (List.mem_append_right _ List.mem_cons_self))
    exact (hbefore.pairs hall).distinct
  | stop _ _ _ => exact nofun
  | noBranch => exact nofun
  | branch _ _ _ ihbefore ihall =>
    have hbefore := ihbefore fun branch hbranch => hholds branch (List.mem_append_left _ hbranch)
    exact hbefore.append (ihall (hholds.branch (List.mem_append_right _ List.mem_cons_self)))
  | noRule _ _ => exact nofun
  | @rule _ _ past rule _ _ _ _ hcontents hsome hfinished _ ihbefore ihall =>
    have hlast : rule ∈ past ++ [rule] := List.mem_append_right _ List.mem_cons_self
    have hbefore := ihbefore
      ⟨hholds.1, fun rule hrule => hholds.2 rule (List.mem_append_left _ hrule)⟩
    -- Each finished expansion is that of a variant, which is in the table if its case may vary.
    refine hbefore.append fun finished hmem => ?_
    rw [hfinished] at hmem
    obtain ⟨variant, hvariant, hdone⟩ := List.mem_filterMap.mp hmem
    obtain ⟨done, hdone', hnoted⟩ := hsome variant hvariant
    obtain rfl := Option.some.inj (hdone.symm.trans hdone')
    obtain ⟨expansion, hexpansion, hvariant⟩ := List.mem_flatMap.mp hvariant
    obtain ⟨e, he, rfl⟩ := List.mem_map.mp hvariant
    have hdrawn := hcontents.derivable hexpansion
    have hcovers := ihall (hholds.rule hlast) expansion hexpansion
    refine (hcovers.of_mem_caseVariants he hnoted.variant).finish
      (Definition.finished?_eq_some_iff.mp hdone).1 hnoted.finished
      fun name value hslot hname hargument => ?_
    exact hspares _ _ _ (hholds.binds hslot hname hargument hlast hdrawn he)
  | pool hrules _ ih => exact (ih (hholds.rules hrules)).distinct

/-- What is drawn is covered by the synonyms of the state behind it, which lists all that the state
before it lists. -/
theorem Draws.covers {Source : Type} [RandomSource Source] {state state' : SampleState Source}
    {e : Example} (hspares : ∀ marker value e, registry.Binds marker value e → marker.Spares value e)
    (h : registry.Draws phrase state e state') (hholds : registry.Holds phrase) :
    state.synonyms.Within state'.synonyms ∧ state'.synonyms.Covers e := by
  induction h with
  | word text _ => exact ⟨.refl _, .ofText text⟩
  | absent _ _ hrun => exact ⟨Modifiers.synonyms_of_drawInclusion hrun ▸ .refl _, .empty⟩
  | wordGroup hrun hform =>
    obtain ⟨hwithin, hcovers⟩ := Modifiers.covers_of_drawForm hform
    exact ⟨Modifiers.synonyms_of_drawInclusion hrun ▸ hwithin, hcovers (.ofText _)⟩
  | choice hrun _ hform ih =>
    obtain ⟨hwithin, hcovers⟩ := ih hholds.choice
    obtain ⟨hwithin', hforms⟩ := Modifiers.covers_of_drawForm hform
    rw [Modifiers.synonyms_of_drawInclusion hrun] at hwithin
    exact ⟨hwithin.trans hwithin', hforms hcovers⟩
  | reference htarget hrun _ hform ih =>
    obtain ⟨hwithin, hcovers⟩ := ih (hholds.reference htarget)
    obtain ⟨hwithin', hforms⟩ := Modifiers.covers_of_drawForm hform
    rw [Modifiers.synonyms_of_drawInclusion hrun] at hwithin
    exact ⟨hwithin.trans hwithin', hforms hcovers⟩
  | nil _ => exact ⟨.refl _, .empty⟩
  | cons _ _ ihfirst ihsecond =>
    obtain ⟨hwithin, hfirst⟩ := ihfirst (hholds.content List.mem_cons_self)
    obtain ⟨hwithin', hsecond⟩ := ihsecond hholds.tail
    exact ⟨hwithin.trans hwithin', (hfirst.mono hwithin').append hsecond⟩
  | branch hrun hbranch _ ih =>
    rw [← SampleM.synonyms_of_index hrun]
    exact ih (hholds.branch (List.mem_of_getElem? hbranch))
  | @rule definition _ _ _ _ _ _ finished _ _ _ state₃ hrun hrule hdraws hcase hfinish ih =>
    have hmem := List.mem_of_getElem? hrule
    obtain ⟨hwithin, hcovers⟩ := ih (hholds.rule hmem)
    obtain ⟨hwithin', hvariant⟩ := SampleM.covers_of_drawCase hcase
    rw [SampleM.synonyms_of_index hrun] at hwithin
    have hrecorded := definition.within_recordSlot state₃.synonyms finished
    refine ⟨(hwithin.trans hwithin').trans hrecorded, ?_⟩
    refine ((hvariant hcovers).mono hrecorded).finish hfinish
      (fun hslot => Definition.notes_recordSlot hslot _ _) fun name value hslot hname hargument => ?_
    have hcase := (SampleM.mem_caseVariants_of_drawCase hcase).1
    exact hspares _ _ _ (hholds.binds hslot hname hargument hmem hdraws.derivable hcase)
  | pool hrules _ ih => exact ih (hholds.rules hrules)

end Registry

/-! ### Batches -/

namespace SampleRun

/-- The examples found are covered by the synonyms met. -/
def Covers (run : SampleRun) : Prop :=
  ∀ e ∈ run.found.toList, run.synonyms.Covers e

theorem Covers.add {run : SampleRun} {drawn : Example × Synonyms} (h : run.Covers)
    (hdrawn : drawn.2.Covers drawn.1) : (run.add drawn).Covers := by
  unfold SampleRun.add
  split
  · exact h
  · intro e he
    dsimp only at he ⊢
    rw [Array.toList_push, List.mem_append, List.mem_singleton] at he
    rcases he with he | rfl
    · exact (h e he).mono (Synonyms.within_merge _ _)
    · exact hdrawn.mono (Synonyms.within_merge_right _ _)

end SampleRun

/-- The examples of a batch are covered by its table. -/
def Batch.Covers (batch : Batch) : Prop :=
  ∀ e ∈ batch.examples, batch.synonyms.Covers e

namespace Registry

section Batches

variable {registry : Registry} {options : Options} {definition : Definition}
  {possibilities : Possibilities}
  (hspares : ∀ marker value e, registry.Binds marker value e → marker.Spares value e)
  (hdefinition : registry.get? definition.key = some definition)
include hspares hdefinition

theorem drawOnce_covers {Source : Type} [RandomSource Source] {maxDepth : Nat} {source : Source}
    {drawn : Example × Synonyms} (h : registry.drawOnce maxDepth definition source = .ok drawn) :
    drawn.2.Covers drawn.1 := by
  unfold drawOnce at h
  split at h
  · contradiction
  · next e state hrun =>
    obtain rfl := Except.ok.inj h
    have hdraws :=
      (registry.drawUnit_gives maxDepth 0 definition none none { source }).of_run_ok hrun
    exact (hdraws.covers hspares (.unit hdefinition none)).2

theorem sampleBatch_covers {requested : Nat} {seed : UInt64} {batch : Batch}
    (h : registry.sampleBatch options definition requested possibilities seed = .ok batch) :
    batch.Covers := by
  unfold sampleBatch at h
  obtain ⟨run, hrun, hbatch⟩ := bind_eq_ok_iff.mp h
  obtain rfl := Except.ok.inj hbatch
  have hcovers : run.Covers := by
    refine SampleRun.continueWith_keeps (fun run drawn hcovers _ hdrawn => ?_) {} nofun hrun
    exact hcovers.add (drawOnce_covers hspares hdefinition hdrawn)
  exact hcovers

theorem uniqueExamples_covers {operation : Operation} {found : List Example × Synonyms}
    (h : registry.uniqueExamples options definition possibilities operation = .ok found) :
    ∀ e ∈ found.1, found.2.Covers e := by
  unfold uniqueExamples at h
  dsimp only at h
  split at h
  · contradiction
  split at h
  · contradiction
  · next examples state hrun =>
    obtain rfl := Except.ok.inj h
    intro e he
    obtain ⟨⟨all, hall, rfl⟩, -⟩ := (examplesOf_ends hdefinition caches_empty).of_run_ok hrun
    obtain ⟨expansion, hexpansion, rfl⟩ :=
      List.mem_map.mp (mem_distinct.mp (distinctBy_subset _ he))
    exact hall.covers hspares (.unit hdefinition none) expansion hexpansion

theorem exhaustiveBatch_covers {batch : Batch}
    (h : registry.exhaustiveBatch options definition possibilities = .ok batch) : batch.Covers := by
  unfold exhaustiveBatch at h
  obtain ⟨found, hfound, hbatch⟩ := bind_eq_ok_iff.mp h
  obtain rfl := Except.ok.inj hbatch
  exact uniqueExamples_covers hspares hdefinition hfound

theorem subsampleBatch_covers {requested : Nat} {seed : UInt64} {batch : Batch}
    (h : registry.subsampleBatch options definition requested possibilities seed = .ok batch) :
    batch.Covers := by
  unfold subsampleBatch at h
  obtain ⟨found, hfound, hbatch⟩ := bind_eq_ok_iff.mp h
  obtain rfl := Except.ok.inj hbatch
  have hcovers := uniqueExamples_covers hspares hdefinition hfound
  intro e he
  dsimp only at he
  split at he
  · exact hcovers e he
  · exact hcovers e ((keepChosen_sublist _ _).subset he)

/-- Every mention of every example of a batch covers a text that the table of the batch lists for the
mention's value, whatever the options, the request, the seed and the counts known before, if the
template puts no value in the place of a marker in a mention, over its edge or in its value. -/
theorem has_surface_of_batch {requested : Option Nat} {seed : UInt64} {memo : CountMemo}
    {batch : Batch}
    (hbatch : ((registry.batch options definition requested seed).run memo).1 = .ok batch) :
    ∀ e ∈ batch.examples, ∀ mention ∈ e.mentions, ∃ surface,
      e.surface? mention = some surface ∧
        batch.synonyms.has mention.canonicalValue surface = true := by
  have hcovers : Gives (registry.batch options definition requested seed) memo
      fun batch _ => batch.Covers := by
    unfold Registry.batch
    refine (gives_run _ memo).bind fun possibilities memo' _ => ?_
    split
    · exact gives_of_except fun batch => sampleBatch_covers hspares hdefinition
    · exact gives_of_except fun batch => subsampleBatch_covers hspares hdefinition
    · exact gives_of_except fun batch => exhaustiveBatch_covers hspares hdefinition
  intro e he mention hmention
  exact (hcovers.of_run_ok (Prod.ext hbatch rfl) e he).exists_surface hmention

end Batches

end Registry

namespace Calls

theorem spares {marker : Marker} {value : String} {e : Example}
    (h : phrasebook.Binds marker value e) : marker.Spares value e := by
  obtain ⟨rfl, rfl, rfl⟩ := bound h
  exact ⟨by decide +kernel, by decide +kernel, by decide +kernel⟩

/-- The mention stands behind the argument, which moves it. -/
theorem has_surface_of_batch_ring : ∃ batch e mention surface,
    ((phrasebook.batch { samplingDivisor := 1 } ring (some 1) 42).run ∅).1 = .ok batch ∧
      e ∈ batch.examples ∧ mention ∈ e.mentions ∧ e.surface? mention = some surface ∧
      batch.synonyms.has mention.canonicalValue surface = true := by
  have hcount : ((phrasebook.countUnit ring none).run ∅).1 = .ok (.finite 1) := by decide +kernel
  have htext : (phrasebook.drawAttempt 64 ring 42 0).toOption.map (·.1) =
      some ⟨"call Bob and Ada", [⟨"person", "Ada", 13, 3⟩]⟩ := by decide +kernel
  obtain ⟨drawn, hdraw, htext⟩ := exists_ok_of_map_toOption htext
  obtain ⟨batch, hbatch, hexamples, -⟩ :=
    Registry.exists_batch_of_drawAttempt { samplingDivisor := 1 } [drawn] hcount rfl
      (fun | 0, _, rfl => hdraw) (List.nodup_singleton _)
  have he : drawn.1 ∈ batch.examples := hexamples ▸ List.mem_cons_self
  have hmention : ⟨"person", "Ada", 13, 3⟩ ∈ drawn.1.mentions := htext ▸ List.mem_cons_self
  obtain ⟨surface, hsurface, hhas⟩ := Registry.has_surface_of_batch (fun _ _ _ => spares)
    get?_ring hbatch drawn.1 he _ hmention
  exact ⟨batch, drawn.1, _, surface, hbatch, he, hmention, hsurface, hhas⟩

end Calls

/-! A template in which a marker stands in the text of a slot. The value takes its place in the text
and in the canonical value of the mention, but the table lists what stood there before. -/

namespace Placeholder

def person : Definition := { key := ⟨.slot, "person"⟩, rules := [{ contents := [.word "$who"] }] }

def call : Definition where
  key := ⟨.shared, "call"⟩
  argumentName := some "who"
  rules := [{ contents := [.word "call ", .reference { target := person.key }] }]

def ring : Definition where
  key := ⟨.intent, "ring"⟩
  rules := [{ contents := [.reference
    { target := call.key, modifiers := { argumentValue := some "Ada" } }] }]

def phrasebook : Registry := (Registry.ofUnits [person, call, ring]).toOption.getD .empty

theorem not_has_surface_of_batch_ring : phrasebook.check = .ok () ∧
    ({ samplingDivisor := 1 } : Options).check = .ok () ∧ ∃ batch,
      ((phrasebook.batch { samplingDivisor := 1 } ring (some 1) 42).run ∅).1 = .ok batch ∧
      ¬∀ e ∈ batch.examples, ∀ mention ∈ e.mentions, ∃ surface,
        e.surface? mention = some surface ∧
          batch.synonyms.has mention.canonicalValue surface = true := by
  refine ⟨by rfl, by rfl, ?_⟩
  have hcount : ((phrasebook.countUnit ring none).run ∅).1 = .ok (.finite 1) := by decide +kernel
  have hfound : (phrasebook.drawAttempt 64 ring 42 0).toOption.map
      (fun drawn => (drawn.1, drawn.2.has "Ada" "Ada")) =
        some (⟨"call Ada", [⟨"person", "Ada", 5, 3⟩]⟩, false) := by decide +kernel
  obtain ⟨drawn, hdraw, hfound⟩ := exists_ok_of_map_toOption hfound
  obtain ⟨htext, hmissing⟩ := Prod.mk.inj hfound
  obtain ⟨batch, hbatch, hexamples, hsynonyms⟩ :=
    Registry.exists_batch_of_drawAttempt { samplingDivisor := 1 } [drawn] hcount rfl
      (fun | 0, _, rfl => hdraw) (List.nodup_singleton _)
  refine ⟨batch, hbatch, fun hcovers => ?_⟩
  rw [hexamples, List.map_singleton, htext] at hcovers
  obtain ⟨surface, hsurface, hhas⟩ := hcovers _ List.mem_cons_self _ List.mem_cons_self
  have hada : (⟨"call Ada", [⟨"person", "Ada", 5, 3⟩]⟩ : Example).surface?
      ⟨"person", "Ada", 5, 3⟩ = some "Ada" := by decide
  obtain rfl := Option.some.inj (hada.symm.trans hsurface)
  rw [hsynonyms] at hhas
  rcases (Synonyms.has_merge _ _).mp hhas with hhas | hhas
  · exact Bool.false_ne_true (hmissing.symm.trans hhas)
  · exact Synonyms.not_has_empty hhas

end Placeholder

end Phrasebook
