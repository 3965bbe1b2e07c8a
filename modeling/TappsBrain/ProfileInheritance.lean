import Mathlib.Data.List.Sort
import Mathlib.Data.Rat.Defs
import TappsBrain.Lib.Table

namespace TappsBrain
open Lib
set_option autoImplicit true
set_option relaxedAutoImplicit false

/-- The configuration blocks of a profile. -/
inductive ProfileBlock where
  | scoring | gc | recall | limits | seeding | hive | feedback | diagnostics | lexical
  | hybridFusion | conflictCheck | safety | consolidation | learningDecay | writePolicy | kg
  | documents
deriving DecidableEq

/-- The fields a block or a layer sets; every other field has the default of its schema. -/
abbrev Settings (V : Type) := List (String × V)

/-- `LayerDefinition`: the references to other layers, and its other fields. -/
structure ProfileLayer (V : Type) where
  name : String
  promotionTo : Option String := none
  demotionTo : Option String := none
  settings : Settings V := []

abbrev SourceTable := Table (Prod.fst : String × ℚ → String)

/-- A profile as its file gives it; `none` is a field outside `model_fields_set`. -/
structure ProfileFields (V : Type) where
  name : String
  version : Option String := none
  inherits : Option String := none
  description : Option String := none
  layers : List (ProfileLayer V)
  sourceConfidence : Option SourceTable := none
  sourceCeilings : Option SourceTable := none
  blocks : ProfileBlock → Option (Settings V) := fun _ => none

def DEFAULT_SOURCE_CONFIDENCE : SourceTable where
  values := [("human", 95 / 100), ("agent", 60 / 100), ("inferred", 40 / 100), ("system", 90 / 100)]
  nodup := by decide

def DEFAULT_SOURCE_CEILINGS : SourceTable where
  values := [("human", 95 / 100), ("agent", 85 / 100), ("inferred", 70 / 100), ("system", 95 / 100)]
  nodup := by decide

section Validate
variable {V : Type}

/-- A list of names as an error message prints it. -/
def listText (names : List String) : String :=
  "[" ++ ", ".intercalate (names.map (fun n => s!"'{n}'")) ++ "]"

/-- A target that is set and is none of the names. -/
def undefinedTarget (names : List String) : Option String → Option String
  | none => none
  | some target => if target = "" ∨ target ∈ names then none else some target

/-- The reference check of `_validate_layers` on one layer. -/
def layerError (names : List String) (l : ProfileLayer V) : Option String :=
  match undefinedTarget names l.promotionTo, undefinedTarget names l.demotionTo with
  | some target, _ =>
    some (s!"Layer '{l.name}' has promotion_to='{target}' which is not a defined layer.")
  | none, some target =>
    some (s!"Layer '{l.name}' has demotion_to='{target}' which is not a defined layer.")
  | none, none => none

/-- The names that came before, in order. -/
def repeatedNames : List String → List String → List String
  | _, [] => []
  | seen, n :: rest => if n ∈ seen then n :: repeatedNames seen rest else repeatedNames (n :: seen) rest

/-- `_validate_layers`. -/
def layersError (p : ProfileFields V) : Option String :=
  let names := p.layers.map (·.name)
  if p.layers.isEmpty ∧ p.inherits = none then
    some "Profile must define at least one layer (or extend a profile that does)."
  else if ¬ names.Nodup then
    some s!"Layer names must be unique. Duplicates: {listText (repeatedNames [] names)}"
  else p.layers.findSome? (layerError names)

end Validate

section Validated
variable {V : Type} {names names' : List String} {l : ProfileLayer V}

theorem undefinedTarget_mono (h : names ⊆ names') {target : Option String}
    (hnone : undefinedTarget names target = none) : undefinedTarget names' target = none := by
  cases target with
  | none => rfl
  | some t =>
    rw [undefinedTarget] at hnone ⊢
    split at hnone
    · next ht => rw [if_pos (ht.imp_right (fun hmem => h hmem))]
    · cases hnone

/-- What one layer refers to stays defined where layers are added. -/
theorem layerError_mono (h : names ⊆ names') (hnone : layerError names l = none) :
    layerError names' l = none := by
  rw [layerError] at hnone ⊢
  cases hpromotion : undefinedTarget names l.promotionTo with
  | some target =>
    rw [hpromotion] at hnone
    cases hnone
  | none =>
    rw [hpromotion] at hnone
    cases hdemotion : undefinedTarget names l.demotionTo with
    | some target =>
      rw [hdemotion] at hnone
      cases hnone
    | none => rw [undefinedTarget_mono h hpromotion, undefinedTarget_mono h hdemotion]

theorem layersError_none_iff (p : ProfileFields V) :
    layersError p = none ↔ (p.layers ≠ [] ∨ p.inherits ≠ none) ∧ (p.layers.map (·.name)).Nodup ∧
      ∀ l ∈ p.layers, layerError (p.layers.map (·.name)) l = none := by
  by_cases hroot : p.layers.isEmpty = true ∧ p.inherits = none
  · simp only [layersError, hroot, and_self, ↓reduceIte, reduceCtorEq, ne_eq, not_true_eq_false,
      or_false, false_iff, not_and]
    exact fun hne => absurd (List.isEmpty_iff.1 hroot.1) hne
  · have hsome : p.layers ≠ [] ∨ p.inherits ≠ none := by
      rw [List.isEmpty_iff] at hroot
      exact Decidable.not_and_iff_or_not.1 hroot
    by_cases hdup : (p.layers.map (·.name)).Nodup
    · simp only [layersError, hroot, hdup, not_true_eq_false, ↓reduceIte, List.findSome?_eq_none_iff,
        hsome, true_and]
    · simp only [layersError, hroot, hdup, not_false_eq_true, ↓reduceIte, reduceCtorEq, false_and,
        and_false]

end Validated

/-- A `MemoryProfile`, which has passed its validator. -/
structure LoadedProfile (V : Type) extends ProfileFields V where
  valid : layersError toProfileFields = none

section Load
variable {V : Type}

/-- `MemoryProfile.model_validate`. -/
def modelValidate (p : ProfileFields V) : Except String (LoadedProfile V) :=
  if h : layersError p = none then .ok { p with valid := h } else .error ((layersError p).getD "")

/-- `get_builtin_profile` over the files of the built-in directory. -/
def getBuiltinProfile (files : List (String × ProfileFields V)) (name : String) :
    Except String (LoadedProfile V) :=
  if name.toList.any (fun c => c = '/' ∨ c = '\\') ∨ name.toList.head? = some '.' then
    .error s!"Invalid profile name '{name}': must not contain path separators or start with '.'"
  else
    match files.lookup name with
    | none =>
      .error (s!"No built-in profile '{name}'. Available: " ++
        listText ((files.map Prod.fst).insertionSort (· ≤ ·)))
    | some p => modelValidate p

namespace LoadedProfile

def versionText (p : LoadedProfile V) : String := p.version.getD "1.0"
def descriptionText (p : LoadedProfile V) : String := p.description.getD ""
def block (p : LoadedProfile V) (b : ProfileBlock) : Settings V := (p.blocks b).getD []

def confidences (p : LoadedProfile V) : SourceTable :=
  p.sourceConfidence.getD DEFAULT_SOURCE_CONFIDENCE

def ceilings (p : LoadedProfile V) : SourceTable := p.sourceCeilings.getD DEFAULT_SOURCE_CEILINGS

theorem names_nodup (p : LoadedProfile V) : (p.layers.map (·.name)).Nodup :=
  ((layersError_none_iff _).1 p.valid).2.1

def layerTable (p : LoadedProfile V) : Table (ProfileLayer.name (V := V)) := ⟨p.layers, p.names_nodup⟩

/-- `get_layer`. -/
def getLayer (p : LoadedProfile V) (name : String) : Option (ProfileLayer V) :=
  p.layerTable.get? name

end LoadedProfile

/-- `_merge_profiles`. -/
def mergeProfiles (child parent : LoadedProfile V) : Except String (LoadedProfile V) :=
  modelValidate
    { name := child.name
      version := some child.versionText
      inherits := none
      description :=
        some (if child.descriptionText = "" then parent.descriptionText else child.descriptionText)
      layers := (parent.layerTable.merge child.layerTable).values
      sourceConfidence := some (parent.confidences.merge child.confidences)
      sourceCeilings := some (parent.ceilings.merge child.ceilings)
      blocks := fun b => some (if (child.blocks b).isSome then child.block b else parent.block b) }

def MAX_INHERITANCE_DEPTH : Nat := 3

/-- `_resolve_inheritance`, by the depth that is left. -/
def resolveInheritance (files : List (String × ProfileFields V)) :
    Nat → LoadedProfile V → Except String (LoadedProfile V)
  | left, profile =>
    match profile.inherits with
    | none => .ok profile
    | some parentName =>
      match left with
      | 0 => .error (s!"Profile inheritance depth exceeds maximum ({MAX_INHERITANCE_DEPTH}). " ++
          s!"Chain: {profile.name} extends {parentName}")
      | left + 1 => do
        let parent ← getBuiltinProfile files parentName
        let parent ← resolveInheritance files left parent
        mergeProfiles profile parent

/-- A profile, the profile it extends, and so on to one that extends none. -/
inductive Chain (files : List (String × ProfileFields V)) : List (LoadedProfile V) → Prop where
  | root {p : LoadedProfile V} (h : p.inherits = none) : Chain files [p]
  | child {p parent : LoadedProfile V} {rest : List (LoadedProfile V)} {name : String}
      (hname : p.inherits = some name) (hload : getBuiltinProfile files name = .ok parent)
      (hrest : Chain files (parent :: rest)) : Chain files (p :: parent :: rest)

/-- A description that is not empty. -/
def described (p : LoadedProfile V) : Option String :=
  if p.descriptionText = "" then none else some p.descriptionText

/-- The nearest entry of a source table, where every profile up to it sets the table. -/
def nearestEntry (table : LoadedProfile V → Option SourceTable) (source : String) :
    List (LoadedProfile V) → Option (String × ℚ)
  | [] => none
  | p :: rest => (table p).bind (fun t => (t.get? source).or (nearestEntry table source rest))

/-- Every setting is that of the nearest profile that has it. -/
structure ResolvedFrom (chain : List (LoadedProfile V)) (r : LoadedProfile V) : Prop where
  resolved : r.inherits = none
  identity : ∀ p ∈ chain.head?, r.name = p.name ∧ r.versionText = p.versionText
  description : r.descriptionText = (chain.findSome? described).getD ""
  blocks : ∀ b, r.block b = (chain.findSome? (·.blocks b)).getD []
  layers : ∀ name, r.getLayer name = chain.findSome? (·.getLayer name)
  confidences : ∀ source entry, nearestEntry (·.sourceConfidence) source chain = some entry →
    r.confidences.get? source = some entry
  ceilings : ∀ source entry, nearestEntry (·.sourceCeilings) source chain = some entry →
    r.ceilings.get? source = some entry

section Resolve
variable {files : List (String × ProfileFields V)} {p child parent r : LoadedProfile V}
  {rest : List (LoadedProfile V)}

theorem described_getD (p : LoadedProfile V) : (described p).getD "" = p.descriptionText := by
  rw [described]
  split
  · next h => exact h.symm
  · rfl

theorem nearestEntry_root {table : LoadedProfile V → Option SourceTable} {default : SourceTable}
    {source : String} {entry : String × ℚ} (h : nearestEntry table source [p] = some entry) :
    ((table p).getD default).get? source = some entry := by
  obtain ⟨t, ht, hentry⟩ := Option.bind_eq_some_iff.1 h
  rw [nearestEntry, Option.or_none] at hentry
  rw [ht, Option.getD_some, hentry]

/-- A profile that extends none is what its own chain says. -/
theorem ResolvedFrom.root (h : p.inherits = none) : ResolvedFrom [p] p where
  resolved := h
  identity := by
    rintro q ⟨⟩
    exact ⟨rfl, rfl⟩
  description := by
    rw [List.findSome?_singleton, described_getD]
  blocks := fun b => by rw [List.findSome?_singleton, LoadedProfile.block]
  layers := fun name => by rw [List.findSome?_singleton]
  confidences := fun _ _ h => nearestEntry_root h
  ceilings := fun _ _ h => nearestEntry_root h

theorem mem_mergedLayers {l : ProfileLayer V} :
    l ∈ (parent.layerTable.merge child.layerTable).values ↔
      l ∈ child.layers ∨ l ∈ parent.layers ∧ child.getLayer l.name = none := Table.mem_merge

theorem childNames_merged :
    child.layers.map (·.name) ⊆ (parent.layerTable.merge child.layerTable).values.map (·.name) :=
  List.map_subset _ (fun _ hl => mem_mergedLayers.2 (.inl hl))

theorem parentNames_merged :
    parent.layers.map (·.name) ⊆ (parent.layerTable.merge child.layerTable).values.map (·.name) := by
  intro name hname
  obtain ⟨l, hl, rfl⟩ := List.mem_map.1 hname
  cases hchild : child.getLayer l.name with
  | none => exact List.mem_map_of_mem (mem_mergedLayers.2 (.inr ⟨hl, hchild⟩))
  | some l' =>
    have hsame : l'.name = l.name := Table.key_of_get? hchild
    rw [← hsame]
    exact childNames_merged (List.mem_map_of_mem (Table.mem_of_get? hchild))

/-- The layers of a child and of its parent still refer to each other. -/
theorem mergedLayers_valid (hroot : parent.inherits = none) {p : ProfileFields V}
    (hp : p.layers = (parent.layerTable.merge child.layerTable).values) :
    layersError p = none := by
  obtain ⟨hsome, -, hparent⟩ := (layersError_none_iff _).1 parent.valid
  obtain ⟨-, -, hchild⟩ := (layersError_none_iff _).1 child.valid
  rw [layersError_none_iff, hp]
  refine ⟨.inl ?_, (parent.layerTable.merge child.layerTable).nodup, ?_⟩
  · intro hnil
    have hnames : parent.layers.map (·.name) ⊆
        (parent.layerTable.merge child.layerTable).values.map (·.name) := parentNames_merged
    rw [hnil, List.map_nil, List.subset_nil, List.map_eq_nil_iff] at hnames
    rcases hsome with hsome | hsome
    · exact hsome hnames
    · exact hsome hroot
  · intro l hl
    rcases mem_mergedLayers.1 hl with hl | ⟨hl, -⟩
    · exact layerError_mono childNames_merged (hchild l hl)
    · exact layerError_mono parentNames_merged (hparent l hl)

theorem nearestEntry_merge {table : LoadedProfile V → Option SourceTable} {default : SourceTable}
    {chain : List (LoadedProfile V)} {inherited : SourceTable} {source : String}
    {entry : String × ℚ}
    (hparent : nearestEntry table source chain = some entry → inherited.get? source = some entry)
    (h : nearestEntry table source (child :: chain) = some entry) :
    (inherited.merge ((table child).getD default)).get? source = some entry := by
  obtain ⟨t, ht, hentry⟩ := Option.bind_eq_some_iff.1 h
  rw [ht, Option.getD_some, Table.get?_merge]
  cases hset : t.get? source with
  | some own => rwa [hset] at hentry
  | none =>
    rw [hset, Option.none_or] at hentry
    rw [Option.none_or, hparent hentry]

/-- Merged onto what its chain resolves to, a child is what the longer chain says. -/
theorem mergeProfiles_resolved (child : LoadedProfile V) {chain : List (LoadedProfile V)}
    (h : ResolvedFrom chain parent) :
    ∃ r, mergeProfiles child parent = .ok r ∧ ResolvedFrom (child :: chain) r := by
  rw [mergeProfiles, modelValidate, dif_pos (mergedLayers_valid h.resolved rfl)]
  refine ⟨_, rfl, ?_⟩
  constructor
  · rfl
  · rintro q ⟨⟩
    exact ⟨rfl, rfl⟩
  · change (if child.descriptionText = "" then parent.descriptionText
      else child.descriptionText) = _
    rw [List.findSome?_cons, described]
    split
    · exact h.description
    · rfl
  · intro b
    change (if (child.blocks b).isSome then child.block b else parent.block b) = _
    rw [List.findSome?_cons, LoadedProfile.block]
    cases child.blocks b with
    | none => exact h.blocks b
    | some settings => rfl
  · intro name
    have hmerged : (parent.layerTable.merge child.layerTable).get? name =
        (child.getLayer name).or (parent.getLayer name) := Table.get?_merge _ _ _
    rw [List.findSome?_cons, ← h.layers name]
    change (parent.layerTable.merge child.layerTable).get? name = _
    rw [hmerged]
    cases child.getLayer name with
    | none => rfl
    | some l => rfl
  · exact fun source entry hentry => nearestEntry_merge (h.confidences source entry) hentry
  · exact fun source entry hentry => nearestEntry_merge (h.ceilings source entry) hentry

/-- Where a chain is within the allowed depth, its first profile resolves to what it says. -/
theorem resolveInheritance_chain (left : Nat) (h : Chain files (p :: rest))
    (hlen : rest.length ≤ left) :
    ∃ r, resolveInheritance files left p = .ok r ∧ ResolvedFrom (p :: rest) r := by
  induction rest generalizing p left with
  | nil =>
    cases h with
    | root hroot =>
      refine ⟨p, ?_, ResolvedFrom.root hroot⟩
      rw [resolveInheritance, hroot]
  | cons parent rest ih =>
    cases h with
    | child hname hload hrest =>
      cases left with
      | zero => exact absurd hlen (Nat.not_succ_le_zero _)
      | succ left =>
        obtain ⟨inherited, hresolve, hinherited⟩ := ih left hrest (Nat.le_of_succ_le_succ hlen)
        obtain ⟨r, hmerge, hr⟩ := mergeProfiles_resolved p hinherited
        refine ⟨r, ?_, hr⟩
        rw [resolveInheritance, hname]
        simp only [hload, bind, Except.bind, hresolve, hmerge]

end Resolve

/-- A profile whose chain is within the allowed depth resolves, to the nearest setting of each
block, layer and source. -/
theorem profile_resolves_to_nearest (files : List (String × ProfileFields V)) (p : LoadedProfile V)
    (rest : List (LoadedProfile V)) (h : Chain files (p :: rest))
    (hlen : rest.length ≤ MAX_INHERITANCE_DEPTH) :
    ∃ r, resolveInheritance files MAX_INHERITANCE_DEPTH p = .ok r ∧ ResolvedFrom (p :: rest) r :=
  resolveInheritance_chain _ h hlen

end Load

def baseProfile : LoadedProfile Nat where
  name := "base"
  layers := [{ name := "note", settings := [("half_life_days", 30)] }]
  sourceConfidence := some ⟨[("human", 1 / 2)], by decide⟩
  blocks := fun b => if b = .limits then some [("max_tags", 5)] else none
  valid := by decide +kernel

def teamProfile : LoadedProfile Nat where
  name := "team"
  inherits := some "base"
  layers := [{ name := "draft", settings := [("half_life_days", 2)] }]
  blocks := fun b => if b = .limits then some [("max_entries", 100)] else none
  valid := by decide +kernel

def profileFiles : List (String × ProfileFields Nat) := [("base", baseProfile.toProfileFields)]

theorem team_chain : Chain profileFiles [teamProfile, baseProfile] := by
  have hload : getBuiltinProfile profileFiles "base" = .ok baseProfile := by
    rw [getBuiltinProfile, if_neg (by decide +kernel)]
    exact dif_pos baseProfile.valid
  exact .child rfl hload (.root rfl)

theorem profile_resolves_to_nearest_team :
    ∃ r, resolveInheritance profileFiles MAX_INHERITANCE_DEPTH teamProfile = .ok r ∧
      ResolvedFrom [teamProfile, baseProfile] r :=
  profile_resolves_to_nearest profileFiles teamProfile [baseProfile] team_chain (by decide)

/-- A block that a child sets hides the settings of its parent's, also those it leaves open. -/
theorem inherited_limit_lost :
    ¬ ∀ (files : List (String × ProfileFields Nat)) (p r : LoadedProfile Nat) (rest) (b : ProfileBlock)
      (field : String) (v : Nat), Chain files (p :: rest) →
        resolveInheritance files MAX_INHERITANCE_DEPTH p = .ok r →
        (p :: rest).findSome? (fun q => (q.block b).lookup field) = some v →
        (r.block b).lookup field = some v := by
  intro h
  obtain ⟨r, hresolve, hr⟩ := resolveInheritance_chain MAX_INHERITANCE_DEPTH team_chain
    (by decide)
  have hfield := h profileFiles teamProfile r [baseProfile] .limits "max_tags" 5 team_chain hresolve
    (by decide +kernel)
  rw [hr.blocks .limits] at hfield
  exact absurd hfield (by decide +kernel)

end TappsBrain
