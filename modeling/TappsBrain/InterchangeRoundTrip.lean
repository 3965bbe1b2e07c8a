import TappsBrain.ImportFidelity
import TappsBrain.Interchange
import TappsBrain.MarkdownKeys

namespace TappsBrain
open Lib
set_option autoImplicit true
set_option relaxedAutoImplicit false

/-- An entry as the model validator returns it, whose unparsed timestamps are not ISO text. -/
structure ExportedEntry (x : Interchange) where
  entry : MemoryEntry
  accepted : entry.validate x.unicode = .ok entry
  classified : ∀ text, some (IsoText.malformed text) ∈
    [entry.validAt, entry.invalidAt, entry.staleDate] → x.parseIso text = none

section Fields
variable {x : Interchange}

theorem writeIso_ne_empty (x : Interchange) (t : Stamp) : x.writeIso t ≠ "" := by
  intro h
  have hparse := x.parseIso_writeIso t
  rw [h, x.parseIso_empty] at hparse
  cases hparse

theorem readOptional_text {read : PyJson → Except String α} {f : α → String}
    (hread : ∀ a, read (.str (f a)) = .ok a) (o : Option α) :
    readOptional read (optJson (fun a => .str (f a)) o) = .ok o := by
  cases o with
  | none => rfl
  | some a =>
    change (read (.str (f a))).map some = _
    rw [hread]
    rfl

theorem readOptional_str (o : Option String) : readOptional readStr (optJson .str o) = .ok o := by
  cases o <;> rfl

theorem readStamp_writeIso (t : Stamp) : readStamp x (.str (x.writeIso t)) = .ok t := by
  rw [readStamp, x.parseIso_writeIso]

theorem isoOf_isoText {t : IsoText} (h : ∀ text, t = .malformed text → x.parseIso text = none) :
    isoOf x (isoText x t) = t := by
  cases t with
  | «at» t => rw [isoText, isoOf, x.parseIso_writeIso]
  | malformed text => rw [isoText, isoOf, h text rfl]

theorem readOptional_iso {o : Option IsoText}
    (h : ∀ text, o = some (.malformed text) → x.parseIso text = none) :
    readOptional (readIso x) (optJson (fun t => .str (isoText x t)) o) = .ok o := by
  cases o with
  | none => rfl
  | some t =>
    have hback := isoOf_isoText (fun text ht => h text (congrArg some ht))
    change Except.ok (some (isoOf x (isoText x t))) = _
    rw [hback]

theorem readAlias_aliasText {o : Option IsoText} (h : ∀ text, o ≠ some (.malformed text)) :
    readAlias x (.str (aliasText x o)) = .ok o := by
  cases o with
  | none => rfl
  | some t =>
    cases t with
    | «at» t =>
      change Except.ok (if x.writeIso t = "" then none else some (isoOf x (x.writeIso t))) = _
      rw [if_neg (writeIso_ne_empty x t), isoOf, x.parseIso_writeIso]
    | malformed text => exact absurd rfl (h text)

theorem readTexts_textsJson (l : List String) : readTexts (textsJson l) = .ok l := by
  change (l.map Json.str).mapM readStr = _
  induction l with
  | nil => rfl
  | cons s rest ih =>
    rw [List.map_cons, List.mapM_cons, ih]
    rfl

theorem readCount_natJson (n : Nat) : readCount x (natJson n) = .ok n := by
  have hint : readInt x (natJson n) = .ok (n : Int) := rfl
  simp only [readCount, hint]
  rw [if_neg (Int.not_lt.2 (Int.natCast_nonneg n)), Int.toNat_natCast]

theorem readSource_text (s : MemorySource) (msg : String) :
    readChoice msg (MemorySource.ofText x.unicode) (.str s.text) = .ok s := by
  cases s <;> rfl

theorem readScope_text (s : MemoryScope) (msg : String) :
    readChoice msg MemoryScope.ofText (.str s.text) = .ok s := by
  cases s <;> rfl

theorem readStatus_text (s : MemoryStatus) (msg : String) :
    readChoice msg MemoryStatus.ofText (.str s.text) = .ok s := by
  cases s <;> rfl

theorem readLearning_text (s : LearningStatus) (msg : String) :
    readChoice msg (textIn [.candidate, .approved, .demoted] LearningStatus.text) (.str s.text) =
      .ok s := by
  cases s <;> rfl

theorem readSignal_text (s : PromotionSignal) (msg : String) :
    readChoice msg promotionSignalOfText (.str s.text) = .ok s := by
  cases s <;> rfl

theorem readSensitivity_text (s : TemporalSensitivity) (msg : String) :
    readChoice msg (textIn [.high, .medium, .low] TemporalSensitivity.text) (.str s.text) = .ok s := by
  cases s <;> rfl

theorem readClass_text (s : MemoryClass) (msg : String) :
    readChoice msg (textIn [.incident, .guidance, .decision, .convention] MemoryClass.text)
      (.str s.text) = .ok s := by
  cases s <;> rfl

end Fields

section Read
variable {x : Interchange} {u : Unicode} {e : MemoryEntry}

/-- What the field readers make of an entry: its tier is the text it was. -/
def untyped (e : MemoryEntry) : MemoryEntry := { e with tier := .layer e.tier.text }

theorem aliases_wellFormed (h : Valid u e) :
    (∀ text, e.validFrom ≠ some (.malformed text)) ∧ ∀ text, e.validUntil ≠ some (.malformed text) := by
  have hwindow : reported (aliasError u e) = none :=
    (valid_iff u e).1 h _ (List.mem_append_right _ (by simp only [modelErrors, List.mem_cons, or_true, true_or]))
  rw [reported_eq_none, aliasError, Option.or_eq_none_iff, Option.or_eq_none_iff] at hwindow
  obtain ⟨hfrom, huntil, -⟩ := hwindow
  constructor
  · intro text htext
    rw [htext] at hfrom
    cases hfrom
  · intro text htext
    rw [htext] at huntil
    cases huntil

/-- A dumped entry is read back whole. -/
theorem entryOfDict_modelDump (hvalid : Valid u e)
    (h : ∀ text, some (IsoText.malformed text) ∈ [e.validAt, e.invalidAt, e.staleDate] →
      x.parseIso text = none) :
    entryOfDict x (.obj (modelDump x e)) = .ok (untyped e) := by
  obtain ⟨hfrom, huntil⟩ := aliases_wellFormed hvalid
  have hiso : ∀ o ∈ [e.validAt, e.invalidAt, e.staleDate],
      readOptional (readIso x) (optJson (fun t => .str (isoText x t)) o) = .ok o :=
    fun o ho => readOptional_iso (fun text ht => h text (ht ▸ ho))
  have hvalidAt := hiso _ List.mem_cons_self
  have hinvalidAt := hiso _ (List.mem_cons_of_mem _ List.mem_cons_self)
  have hstale := hiso _ (List.mem_cons_of_mem _ (List.mem_cons_of_mem _ List.mem_cons_self))
  -- every field finds its own member
  simp only [entryOfDict, required, defaulted, Json.get?, modelDump, List.lookup, List.reverse_cons,
    List.nil_append, List.cons_append, List.reverse_nil, String.reduceBEq]
  simp only [readSource_text, readScope_text, readTexts_textsJson, readStamp_writeIso,
    readCount_natJson, readOptional_str, readOptional_text readStamp_writeIso, hvalidAt, hinvalidAt,
    readAlias_aliasText hfrom, readAlias_aliasText huntil,
    readOptional_text (fun t => readSensitivity_text t _), readStatus_text, hstale,
    readLearning_text, readOptional_text (fun t => readSignal_text t _),
    readOptional_text (fun t => readClass_text t _)]
  rfl

theorem canonicalTier_text (h : canonicalTier u e.tier = e.tier) :
    canonicalTier u (.layer e.tier.text) = e.tier := by
  cases htier : e.tier with
  | std t => cases t <;> rfl
  | layer name =>
    rw [htier] at h
    exact h

theorem tierError_text (h : tierError e.tier = none) : tierError (.layer e.tier.text) = none := by
  cases htier : e.tier with
  | std t => cases t <;> rfl
  | layer name =>
    rw [htier] at h
    exact h

theorem tierError_of_valid (h : Valid u e) : tierError e.tier = none :=
  reported_eq_none.1 ((valid_iff u e).1 h _ (List.mem_append_left _ (by
    simp only [fieldErrors, List.mem_cons, true_or, or_true])))

theorem valid_untyped (h : Valid u e) : Valid u (untyped e) := by
  have htier : tierError (untyped e).tier = none := tierError_text (tierError_of_valid h)
  rw [valid_iff] at h ⊢
  simp only [fieldErrors, modelErrors, List.cons_append, List.nil_append, List.forall_mem_cons] at h ⊢
  obtain ⟨hkey, hvalue, -, hrest⟩ := h
  exact ⟨hkey, hvalue, reported_eq_none.2 htier, hrest⟩

/-- The validator finds the tier behind its text. -/
theorem validate_untyped (h : e.validate u = .ok e) : (untyped e).validate u = .ok e := by
  obtain ⟨hvalid, hnorm⟩ := validate_ok h
  have hcanonical : canonicalTier u e.tier = e.tier := congrArg MemoryEntry.tier hnorm.symm
  have htier : canonicalTier u (untyped e).tier = e.tier := canonicalTier_text hcanonical
  have hsame : (untyped e).normalised u = e.normalised u := by
    rw [MemoryEntry.normalised, htier, MemoryEntry.normalised, hcanonical]
    rfl
  rw [validate_of_valid (valid_untyped hvalid), hsame, ← hnorm]

theorem memoryEntry_modelDump (e : ExportedEntry x) :
    memoryEntry x (.obj (modelDump x e.entry)) = .ok e.entry := by
  have hvalid : Valid x.unicode e.entry := (validate_ok e.accepted).1
  rw [memoryEntry, entryOfDict_modelDump hvalid e.classified]
  exact validate_untyped e.accepted

end Read

section Mif
variable {x : Interchange} {u : Unicode} {e : MemoryEntry}

/-- What a unit keeps of an entry. -/
def mifCopy (x : Interchange) (e : MemoryEntry) : MemoryEntry :=
  { key := e.key, value := e.value, tier := e.tier, confidence := e.confidence, source := e.source
    sourceAgent := e.sourceAgent, scope := e.scope, tags := e.tags, createdAt := e.createdAt
    updatedAt := e.updatedAt, lastAccessed := x.now, agentScope := e.agentScope
    memoryGroup := e.memoryGroup }

/-- The dictionary the reader makes of the unit of an entry. -/
def mifMembers (x : Interchange) (e : MemoryEntry) : List (String × PyJson) :=
  [("key", .str e.key),
    ("value", .str e.value),
    ("tier", .str e.tier.text),
    ("confidence", .num (.float e.confidence)),
    ("source", .str e.source.text),
    ("source_agent", .str e.sourceAgent),
    ("scope", .str e.scope.text),
    ("tags", textsJson e.tags),
    ("created_at", .str (x.writeIso e.createdAt)),
    ("updated_at", .str (x.writeIso e.updatedAt)),
    ("agent_scope", .str e.agentScope),
    ("memory_group", optJson .str e.memoryGroup)]

theorem truthy_str {s : String} (h : s ≠ "") : truthy (.str s) = true := decide_eq_true h

theorem key_not_blank (h : Valid u e) : isBlank e.key = false := by
  have hpasses := willFailValidation_of_valid h
  rw [willFailValidation, Bool.or_eq_false_iff, Bool.not_eq_false'] at hpasses
  obtain ⟨hne, hchars⟩ := keySlug_chars hpasses.1
  obtain ⟨c, rest, hkey⟩ := List.exists_cons_of_ne_nil hne
  have hc : c ∈ e.key.toList := hkey ▸ List.mem_cons_self
  apply List.all_eq_false.2
  exact ⟨c, hc, Bool.not_eq_true _ ▸ (slugTail_plain (hchars c hc)).1⟩

theorem value_not_blank (h : Valid u e) : isBlank e.value = false := by
  have hvalue : valueError e.value = none :=
    reported_eq_none.1 ((valid_iff u e).1 h _ (List.mem_append_left _ (by
      simp only [fieldErrors, List.mem_cons, true_or, or_true])))
  cases hblank : isBlank e.value with
  | false => rfl
  | true =>
    rw [valueError, hblank] at hvalue
    split at hvalue <;> cases hvalue

theorem tier_text_ne_empty (h : Valid u e) : e.tier.text ≠ "" := by
  have htier := tierError_of_valid h
  cases ht : e.tier with
  | std t => cases t <;> decide
  | layer name =>
    rintro hname
    rw [ht] at htier
    have hempty : name = "" := hname
    rw [hempty] at htier
    cases htier

theorem getOr_of_get {d j : PyJson} {name : String} (h : d.get? name = some j)
    (ht : truthy j = true) (fallback : PyJson) : getOr d name fallback = j := by
  simp only [getOr, h, ht, ↓reduceIte]

/-- The extension block of the unit of an entry. -/
def tappsMembers (e : MemoryEntry) : List (String × PyJson) :=
  [("key", .str e.key),
    ("tier", .str e.tier.text),
    ("scope", .str e.scope.text),
    ("confidence", .num (.float e.confidence)),
    ("agent_scope", .str e.agentScope),
    ("memory_group", optJson .str e.memoryGroup),
    ("source", .str e.source.text),
    ("source_agent", .str e.sourceAgent)]

theorem tappsBlock_entryToMifUnit : tappsBlock (entryToMifUnit x e) = .obj (tappsMembers e) := rfl

theorem mifKey_tappsMembers (h : isBlank e.key = false) (unit : PyJson) :
    mifKey x unit (.obj (tappsMembers e)) = e.key := by
  have hget : (Json.obj (tappsMembers e)).get? "key" = some (.str e.key) := rfl
  simp only [mifKey, hget, h, Bool.false_eq_true, ↓reduceIte]

theorem mifUnitToMemoryDict_entryToMifUnit (h : Valid u e) :
    mifUnitToMemoryDict x (entryToMifUnit x e) = some (.obj (mifMembers x e)) := by
  have hcontent : (entryToMifUnit x e).get? "content" = some (.str e.value) := rfl
  have htier : ∀ fallback, getOr (.obj (tappsMembers e)) "tier" fallback = .str e.tier.text :=
    getOr_of_get rfl (truthy_str (tier_text_ne_empty h))
  have hcreated : ∀ fallback, getOr (entryToMifUnit x e) "created" fallback =
      .str (x.writeIso e.createdAt) :=
    getOr_of_get rfl (truthy_str (writeIso_ne_empty x e.createdAt))
  have hmodified : ∀ fallback, getOr (entryToMifUnit x e) "modified" fallback =
      .str (x.writeIso e.updatedAt) :=
    getOr_of_get rfl (truthy_str (writeIso_ne_empty x e.updatedAt))
  simp only [mifUnitToMemoryDict, hcontent, value_not_blank h, tappsBlock_entryToMifUnit,
    mifKey_tappsMembers (key_not_blank h), htier, hcreated, hmodified, Bool.false_eq_true, ↓reduceIte]
  rfl

theorem entryOfDict_mifMembers : entryOfDict x (.obj (mifMembers x e)) = .ok (untyped (mifCopy x e)) := by
  simp only [entryOfDict, required, defaulted, Json.get?, mifMembers, List.lookup, List.reverse_cons,
    List.nil_append, List.cons_append, List.reverse_nil, String.reduceBEq]
  simp only [readSource_text, readScope_text, readTexts_textsJson, readStamp_writeIso,
    readOptional_str]
  rfl

theorem valid_mifCopy (e : ExportedEntry x) (hbranch : e.entry.branch = none)
    (hmission : e.entry.missionId = none) : Valid x.unicode (mifCopy x e.entry) := by
  have hscope : scopeError (mifCopy x e.entry) = scopeError e.entry := by
    rw [scopeError, scopeError, hbranch, hmission]
    rfl
  exact valid_of_new (validate_ok e.accepted).1 rfl rfl rfl rfl rfl rfl rfl hscope
    ⟨rfl, rfl, rfl, rfl, rfl⟩ ⟨rfl, rfl, rfl⟩

theorem memoryEntry_mifMembers (e : ExportedEntry x) (hbranch : e.entry.branch = none)
    (hmission : e.entry.missionId = none) :
    memoryEntry x (.obj (mifMembers x e.entry)) = .ok (mifCopy x e.entry) := by
  have hsame : (mifCopy x e.entry).normalised x.unicode = mifCopy x e.entry :=
    normalised_of_shared (validate_ok e.accepted).2.symm rfl rfl rfl rfl
  have haccepted : (mifCopy x e.entry).validate x.unicode = .ok (mifCopy x e.entry) := by
    rw [validate_of_valid (valid_mifCopy e hbranch hmission), hsame]
  rw [memoryEntry, entryOfDict_mifMembers]
  exact validate_untyped haccepted

/-- What comes back from a unit has neither branch nor mission. -/
theorem memoryEntry_mifMembers_reach {e' : MemoryEntry}
    (h : memoryEntry x (.obj (mifMembers x e)) = .ok e') : e'.branch = none ∧ e'.missionId = none := by
  rw [memoryEntry, entryOfDict_mifMembers] at h
  rw [(validate_ok h).2]
  exact ⟨rfl, rfl⟩

end Mif

section Lines
variable {x : Interchange}

theorem isLineBreak_of_printable {c : Char} (h : Json.printable c = true) :
    isLineBreak c = false := by
  cases hbreak : isLineBreak c with
  | false => rfl
  | true =>
    simp only [Json.printable, isLineBreak, Bool.and_eq_true, Bool.or_eq_true, decide_eq_true_eq,
      beq_iff_eq] at h hbreak
    omega

theorem dumpsPy_unbroken (j : PyJson) : ∀ c ∈ (dumpsPy x j).toList, isLineBreak c = false := by
  intro c hc
  have htext : (dumpsPy x j).toList = Json.text (PyNumber.numerals x.floats) j := String.toList_ofList
  rw [htext] at hc
  exact isLineBreak_of_printable (Json.printable_text _ j c hc)

theorem splitlines_dumped (l : List PyJson) (hne : l ≠ []) :
    splitlines ("\n".intercalate (l.map (dumpsPy x)) ++ "\n") = l.map (dumpsPy x) := by
  have hlines : ∀ line ∈ l.map (dumpsPy x), splitlines (line ++ "\n") = [line] := by
    intro line hline
    obtain ⟨j, -, rfl⟩ := List.mem_map.1 hline
    exact splitlines_unbroken (dumpsPy_unbroken j)
  rw [splitlines_unlines _ (by simpa only [ne_eq, List.map_eq_nil_iff] using hne),
    List.flatMap_congr hlines, List.flatMap_singleton']

theorem strip_dumpsPy (members : List (String × PyJson)) :
    strip (dumpsPy x (.obj members)) = dumpsPy x (.obj members) := by
  obtain ⟨rest, hchars, hlast⟩ := Json.dumps_braced (PyNumber.numerals x.floats) members
  rw [← dumpsPy] at hchars
  rw [strip, hchars, stripChars_of_ends (by decide) (by decide) hlast, ← hchars, String.ofList_toList]

theorem dumpsPy_ne_empty (members : List (String × PyJson)) : dumpsPy x (.obj members) ≠ "" := by
  obtain ⟨rest, hchars, -⟩ := Json.dumps_braced (PyNumber.numerals x.floats) members
  intro hempty
  rw [← dumpsPy, hempty] at hchars
  cases hchars

/-- A line that holds a dumped object is read as that object. -/
theorem parseLines_dumped (n : Nat) (members : List (String × PyJson)) (rest : List String) :
    parseLines x n (dumpsPy x (.obj members) :: rest) =
      (parseLines x (n + 1) rest).map (lineMemories (.obj members) ++ ·) := by
  have hloads : loadsPy x (dumpsPy x (.obj members)) = some (.obj members) := Json.loads_dumps _ _
  simp only [parseLines, strip_dumpsPy, dumpsPy_ne_empty, hloads, ↓reduceIte]

theorem parseLines_entries (n : Nat) (entries : List MemoryEntry) :
    parseLines x n (entries.map (fun e => dumpsPy x (.obj (modelDump x e)))) =
      .ok (entries.map (fun e => .obj (modelDump x e))) := by
  induction entries generalizing n with
  | nil => rfl
  | cons e rest ih =>
    have hline : lineMemories (.obj (modelDump x e)) = [.obj (modelDump x e)] := rfl
    rw [List.map_cons, parseLines_dumped, ih, hline]
    rfl

/-- An export is read back as the dumps of its entries, as far as the limit lets it. -/
theorem parseJsonlPayload_export (sourceProject : String) (exportedAt : Option String)
    (entries : List MemoryEntry) (maxEntries : Option Int) :
    parseJsonlPayload x (buildJsonlExport x sourceProject exportedAt entries) maxEntries =
      (resolveMaxImportEntries x maxEntries).bind (fun limit =>
        (enforceImportLimit entries.length limit).map (fun _ =>
          entries.map (fun e => .obj (modelDump x e)))) := by
  have hexport : buildJsonlExport x sourceProject exportedAt entries =
      "\n".intercalate ((jsonlMeta x sourceProject (exportStamp x exportedAt) entries.length ::
        entries.map (fun e => Json.obj (modelDump x e))).map (dumpsPy x)) ++ "\n" := by
    rw [buildJsonlExport, List.map_cons, List.map_map]
    rfl
  generalize exportStamp x exportedAt = stamp at hexport
  have hmeta : ∀ rest, parseLines x 1
      (dumpsPy x (jsonlMeta x sourceProject stamp entries.length) :: rest) = parseLines x 2 rest := by
    intro rest
    have hnone : lineMemories (jsonlMeta x sourceProject stamp entries.length) = [] := rfl
    rw [jsonlMeta, parseLines_dumped, ← jsonlMeta, hnone]
    cases parseLines x 2 rest <;> rfl
  have hparse : parseLines x 1 (splitlines (buildJsonlExport x sourceProject exportedAt entries)) =
      .ok (entries.map (fun e => .obj (modelDump x e))) := by
    rw [hexport, splitlines_dumped _ (List.cons_ne_nil _ _), List.map_cons, hmeta, List.map_map]
    exact parseLines_entries 2 entries
  rw [parseJsonlPayload]
  cases resolveMaxImportEntries x maxEntries with
  | error msg => rfl
  | ok limit =>
    change (parseLines x 1 _).bind _ = _
    rw [hparse]
    change (enforceImportLimit (entries.map _).length limit).bind _ = (enforceImportLimit _ _).map _
    rw [List.length_map]
    cases enforceImportLimit entries.length limit <;> rfl

end Lines

section Carried
variable {x : Interchange}

/-- The fields an exchange has to preserve. -/
structure SameCore (e e' : MemoryEntry) : Prop where
  key : e'.key = e.key
  value : e'.value = e.value
  tier : e'.tier = e.tier
  scope : e'.scope = e.scope
  branch : e'.branch = e.branch
  missionId : e'.missionId = e.missionId
  tags : e'.tags = e.tags
  confidence : e'.confidence = e.confidence
  source : e'.source = e.source
  agentScope : e'.agentScope = e.agentScope
  memoryGroup : e'.memoryGroup = e.memoryGroup

theorem SameCore.refl (e : MemoryEntry) : SameCore e e :=
  ⟨rfl, rfl, rfl, rfl, rfl, rfl, rfl, rfl, rfl, rfl, rfl⟩

/-- The model accepts one memory for each entry, in order, that agrees with it. -/
def Rebuilt (x : Interchange) (entries : List (ExportedEntry x)) (memories : List PyJson) : Prop :=
  List.Forall₂ (fun e d => ∃ e', memoryEntry x d = .ok e' ∧ Valid x.unicode e' ∧ SameCore e.entry e')
    entries memories

def JsonlCarries (x : Interchange) (sourceProject : String) (exportedAt : Option String)
    (maxEntries : Option Int) (entries : List (ExportedEntry x)) : Prop :=
  ∃ memories, parseJsonlPayload x
      (buildJsonlExport x sourceProject exportedAt (entries.map (·.entry))) maxEntries =
        .ok memories ∧ Rebuilt x entries memories

def MifCarries (x : Interchange) (entries : List (ExportedEntry x)) : Prop :=
  ∃ memories, (buildMifDocument x (entries.map (·.entry))).mapM (mifUnitToMemoryDict x) =
    some memories ∧ Rebuilt x entries memories

/-- The import limit lets `count` entries in. -/
def WithinLimit (x : Interchange) (maxEntries : Option Int) (count : Nat) : Prop :=
  ∃ limit, resolveMaxImportEntries x maxEntries = .ok limit ∧ count ≤ limit

theorem rebuilt_modelDump (entries : List (ExportedEntry x)) :
    Rebuilt x entries (entries.map (fun e => .obj (modelDump x e.entry))) := by
  rw [Rebuilt, List.forall₂_map_right_iff, List.forall₂_same]
  intro e _
  exact ⟨e.entry, memoryEntry_modelDump e, (validate_ok e.accepted).1, SameCore.refl _⟩

/-- The lines of an export carry every entry, if there are not too many. -/
theorem jsonlCarries_iff (sourceProject : String) (exportedAt : Option String)
    (maxEntries : Option Int) (entries : List (ExportedEntry x)) :
    JsonlCarries x sourceProject exportedAt maxEntries entries ↔
      WithinLimit x maxEntries entries.length := by
  rw [JsonlCarries, WithinLimit, parseJsonlPayload_export, List.length_map, List.map_map]
  cases resolveMaxImportEntries x maxEntries with
  | error msg =>
    constructor
    · rintro ⟨memories, h, -⟩
      cases h
    · rintro ⟨limit, h, -⟩
      cases h
  | ok limit =>
    change (∃ memories, (enforceImportLimit entries.length limit).map _ = Except.ok memories ∧ _) ↔ _
    rw [enforceImportLimit]
    constructor
    · rintro ⟨memories, h, -⟩
      split at h
      · cases h
      · next hle => exact ⟨limit, rfl, not_lt.1 hle⟩
    · rintro ⟨limit', hlimit, hle⟩
      cases hlimit
      rw [if_neg (not_lt.2 hle)]
      exact ⟨_, rfl, rebuilt_modelDump entries⟩

theorem mapM_units (entries : List (ExportedEntry x)) :
    (buildMifDocument x (entries.map (·.entry))).mapM (mifUnitToMemoryDict x) =
      some (entries.map (fun e => .obj (mifMembers x e.entry))) := by
  induction entries with
  | nil => rfl
  | cons e rest ih =>
    have hunit := mifUnitToMemoryDict_entryToMifUnit (x := x) (validate_ok e.accepted).1
    rw [buildMifDocument] at ih ⊢
    rw [List.map_cons, List.map_cons, List.mapM_cons, hunit, ih]
    rfl

theorem mifMembers_carry_iff (e : ExportedEntry x) :
    (∃ e', memoryEntry x (.obj (mifMembers x e.entry)) = .ok e' ∧ Valid x.unicode e' ∧
      SameCore e.entry e') ↔ e.entry.branch = none ∧ e.entry.missionId = none := by
  constructor
  · rintro ⟨e', hread, -, hsame⟩
    obtain ⟨hbranch, hmission⟩ := memoryEntry_mifMembers_reach hread
    exact ⟨hsame.branch ▸ hbranch, hsame.missionId ▸ hmission⟩
  · rintro ⟨hbranch, hmission⟩
    have hread := memoryEntry_mifMembers e hbranch hmission
    have hvalid : Valid x.unicode (mifCopy x e.entry) := valid_mifCopy e hbranch hmission
    exact ⟨_, hread, hvalid,
      ⟨rfl, rfl, rfl, rfl, hbranch.symm, hmission.symm, rfl, rfl, rfl, rfl, rfl⟩⟩

/-- The units carry an entry that has neither branch nor mission, and no other. -/
theorem mifCarries_iff (entries : List (ExportedEntry x)) :
    MifCarries x entries ↔ ∀ e ∈ entries, e.entry.branch = none ∧ e.entry.missionId = none := by
  have hmembers : MifCarries x entries ↔
      Rebuilt x entries (entries.map (fun e => .obj (mifMembers x e.entry))) := by
    rw [MifCarries, mapM_units]
    constructor
    · rintro ⟨memories, hmemories, h⟩
      cases hmemories
      exact h
    · intro h
      exact ⟨_, rfl, h⟩
  rw [hmembers, Rebuilt, List.forall₂_map_right_iff, List.forall₂_same]
  exact forall₂_congr (fun e _ => mifMembers_carry_iff e)

/-- Both formats carry every entry exactly where the units and the import limit do. -/
theorem interchange_carries_iff (x : Interchange) (sourceProject : String)
    (exportedAt : Option String) (maxEntries : Option Int) (entries : List (ExportedEntry x)) :
    JsonlCarries x sourceProject exportedAt maxEntries entries ∧ MifCarries x entries ↔
      WithinLimit x maxEntries entries.length ∧
        ∀ e ∈ entries, e.entry.branch = none ∧ e.entry.missionId = none :=
  and_congr (jsonlCarries_iff sourceProject exportedAt maxEntries entries) (mifCarries_iff entries)

/-- An exchange whose timestamps are written as decimal numbers. -/
def Interchange.plain : Interchange where
  unicode := .lowercase
  floats := .fractions
  writeIso := fun t => String.ofList (Nat.toDigits 10 t)
  parseIso := fun s => PyNumber.readNat s.toList
  parseIso_writeIso := fun t => by
    rw [String.toList_ofList, PyNumber.readNat_toDigits]
  parseIso_empty := rfl
  laxFloat := fun _ => none
  laxInt := fun _ => none
  laxBool := fun _ => none
  pyStr := fun _ => ""
  uuid5 := id
  uuid4Hex := "0"
  parseInt := fun _ => none
  maxImportEnv := ""
  decodeError := id
  version := "1"
  now := 1

/-- A note on a branch. -/
def branchNote : ExportedEntry .plain where
  entry :=
    { key := "build-flags", value := "use the new linker", scope := .branch, branch := some "linker"
      confidence := 1, createdAt := 1, updatedAt := 1, lastAccessed := 1 }
  accepted := by decide +kernel
  classified := by
    intro text h
    simp only [List.mem_cons, reduceCtorEq, List.not_mem_nil, or_self] at h

/-- The note loses its branch on the way through a unit. -/
theorem branch_note_lost : ¬ (JsonlCarries .plain "demo" none none [branchNote] ∧
    MifCarries .plain [branchNote]) := by
  intro h
  have hbranch := (mifCarries_iff [branchNote]).1 h.2 branchNote List.mem_cons_self
  cases hbranch.1

end Carried

end TappsBrain
