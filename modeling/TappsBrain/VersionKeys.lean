import TappsBrain.Integrity
import TappsBrain.MarkdownKeys
import TappsBrain.SupersessionChains

namespace TappsBrain
open Lib
set_option autoImplicit true
set_option relaxedAutoImplicit false

/-- The cache or the table has a memory under the key. -/
def Store.holds (s : Store) (key : String) : Bool := s.entries.contains key || s.rows.contains key

def versionKey (key : String) (n : Nat) : String := s!"{key}.v{n}"

def versionLike (key k : String) : Bool := (s!"{key}.v").toList.isPrefixOf k.toList

/-- The cached memories whose key starts as one of a version would. -/
def versionsLike (s : Store) (key : String) : Nat :=
  s.entries.values.countP (fun e => versionLike key e.key)

theorem versionKey_chars (key : String) (n : Nat) :
    (versionKey key n).toList = key.toList ++ '.' :: 'v' :: Nat.toDigits 10 n := by
  have hmark : ".v".toList = ['.', 'v'] := rfl
  rw [← Nat.toList_repr]
  simp only [versionKey, toString, String.toList_append, hmark, List.append_assoc, List.cons_append,
    List.nil_append]

theorem versionKey_inj {key : String} {m n : Nat} (h : versionKey key m = versionKey key n) :
    m = n := by
  have hchars := congrArg String.toList h
  rw [versionKey_chars, versionKey_chars] at hchars
  have hdigits := List.append_cancel_left hchars
  simp only [List.cons.injEq, true_and] at hdigits
  exact toDigits_inj hdigits

theorem versionKey_ne (key : String) (n : Nat) : versionKey key n ≠ key := by
  intro h
  have hlength := congrArg List.length (congrArg String.toList h)
  rw [versionKey_chars, List.length_append, List.length_cons, List.length_cons] at hlength
  omega

theorem versionLike_self (key : String) : versionLike key key = false := by
  rw [Bool.eq_false_iff]
  intro h
  have hlength := (List.isPrefixOf_iff_prefix.1 h).length_le
  have hmark : ".v".length = 2 := rfl
  simp only [toString, String.length_toList, String.length_append, hmark] at hlength
  omega

/-- A version of a key is a valid key where the key is one and leaves room for it. -/
theorem keySlug_versionKey (key : String) (n : Nat) :
    keySlug (versionKey key n) = true ↔
      keySlug key = true ∧ key.length + 2 + (Nat.toDigits 10 n).length ≤ MAX_KEY_LENGTH := by
  have hdigits : (Nat.toDigits 10 n).all isSlugTail = true := by
    rw [List.all_eq_true]
    intro c hc
    rw [← Nat.toList_repr] at hc
    rw [isSlugTail, digits_chars n c hc]
    rfl
  rw [keySlug, keySlug, versionKey_chars, ← String.length_toList]
  cases key.toList with
  | nil =>
    have hdot : isSlugHead '.' = false := by decide
    simp only [List.nil_append, hdot, Bool.false_and, Bool.false_eq_true, false_and]
  | cons c rest =>
    have hmark : isSlugTail '.' = true ∧ isSlugTail 'v' = true := by decide
    simp only [List.cons_append, List.all_append, List.all_cons, hdigits, hmark.1, hmark.2,
      Bool.and_true, Bool.and_eq_true, decide_eq_true_eq, List.length_append, List.length_cons]
    constructor
    · rintro ⟨hchars, hlength⟩
      exact ⟨⟨hchars, by omega⟩, by omega⟩
    · rintro ⟨⟨hchars, -⟩, hlength⟩
      exact ⟨hchars, by omega⟩

section Count
variable {w : World} {s t : Store} {oldKey : String} {old : MemoryEntry}

theorem countP_put {p : MemoryEntry → Bool} {e : MemoryEntry} {l : List MemoryEntry}
    (he : p e = false) (hsame : ∀ x ∈ l, x.key = e.key → p x = false) :
    (Table.put MemoryEntry.key e l).countP p = l.countP p := by
  induction l with
  | nil => rw [Table.put, List.countP_cons_of_neg (by rw [he]; decide)]
  | cons x rest ih =>
    rw [Table.put]
    split
    · next heq =>
      rw [List.countP_cons_of_neg (by rw [he]; decide),
        List.countP_cons_of_neg (by rw [hsame x List.mem_cons_self heq]; decide)]
    · rw [List.countP_cons, List.countP_cons,
        ih (fun y hy => hsame y (List.mem_cons_of_mem x hy))]

theorem versionCount_countP (key : String) (l : List MemoryEntry) :
    versionCount key l = l.countP (fun e => decide (e.key = key) || versionLike key e.key) :=
  List.countP_eq_length_filter.symm

/-- The old row is one of its own versions; the others start with its key. -/
theorem versionCount_eq {l : List MemoryEntry} (hl : (l.map (·.key)).Nodup) (h : old ∈ l) :
    versionCount old.key l = l.countP (fun e => versionLike old.key e.key) + 1 := by
  have hone : l.countP (fun e => e.key = old.key) = 1 := by
    have hcount := List.count_eq_one_of_mem hl (List.mem_map_of_mem h)
    rw [List.count, List.countP_map] at hcount
    rw [← hcount]
    exact List.countP_congr (fun x _ => by simp only [Function.comp, beq_iff_eq, decide_eq_true_eq])
  have hsplit : ∀ l : List MemoryEntry, versionCount old.key l =
      l.countP (fun e => versionLike old.key e.key) + l.countP (fun e => e.key = old.key) := by
    intro l
    induction l with
    | nil => rfl
    | cons x rest ih =>
      rw [versionCount_countP] at ih ⊢
      rw [List.countP_cons, List.countP_cons, List.countP_cons, ih]
      by_cases hx : x.key = old.key
      · rw [hx, versionLike_self]
        simp only [decide_true, Bool.true_or, ↓reduceIte, Bool.false_eq_true, Nat.add_zero]
        omega
      · simp only [hx, decide_false, Bool.false_or, Bool.false_eq_true, ↓reduceIte]
        omega
  rw [hsplit, hone]

theorem ensureEntryCached_versionsLike (h : ensureEntryCached w oldKey s = (.ok (some old), t)) :
    versionsLike t oldKey = versionsLike s oldKey := by
  rw [ensureEntryCached_run] at h
  cases hc : s.entries.get? oldKey with
  | some e =>
    rw [hc] at h
    cases h
    rfl
  | none =>
    rw [hc] at h
    dsimp only at h
    split at h
    · cases h
    · split at h
      · cases h
      · next row hrow =>
        split at h
        · cases h
        · next e he =>
          cases h
          have hkey : old.key = oldKey := by
            rw [(rowToEntry_ok he).2, ← Table.key_of_get? hrow]
            rfl
          have hlike : ∀ x : MemoryEntry, x.key = old.key → versionLike oldKey x.key = false := by
            intro x hx
            rw [hx, hkey, versionLike_self]
          exact countP_put (hlike old rfl) (fun x _ hx => hlike x hx)

/-- What `supersede` names the new row: two more than the cached keys that start like a version. -/
theorem successor_key {kw : SaveKwargs} {newKey : String} (hkw : kw.key = none)
    (h : successor w oldKey kw s = some (old, newKey)) :
    newKey = versionKey oldKey (versionsLike s oldKey + 2) := by
  rw [successor] at h
  split at h
  · next e t hcached =>
    split at h
    · cases h
    · cases h
      obtain ⟨hslot, hkey⟩ := ensureEntryCached_slot hcached
      have hcount := versionCount_eq t.entries.nodup (Table.mem_of_get? hslot)
      have hlike := ensureEntryCached_versionsLike hcached
      rw [versionsLike, ← hkey] at hlike
      rw [hlike, hkey] at hcount
      rw [supersedingKey, hkw, hcount]
      rfl
  · cases h

end Count

/-- What a caller who supersedes without naming a key may rely on. -/
structure NewMemory (s : Store) (oldKey newKey : String) : Prop where
  free : s.holds newKey = false
  other : newKey ≠ oldKey
  valid : keySlug newKey = true

/-- The `supersede` calls that leave the key of the new row to the store, and name an open row. -/
def WriteCall.versions (w : World) (s : Store) : WriteCall → Option (String × String)
  | .supersede oldKey _ kw =>
    if kw.key = none then (successor w oldKey kw s).map (fun next => (oldKey, next.2)) else none
  | _ => none

def WriteCall.writesNew (w : World) (call : WriteCall) (s : Store) : Prop :=
  ∀ oldKey newKey, call.versions w s = some (oldKey, newKey) → NewMemory s oldKey newKey

/-- A state in which the count of what looks like a version of the key leads past its versions. -/
structure VersionsCounted (s : Store) (key : String) : Prop where
  /-- No version in use has two more than these as its number. -/
  apart : ∀ n, s.holds (versionKey key n) = true → versionsLike s key + 2 ≠ n
  slug : keySlug key = true
  room : key.length + 2 + (Nat.toDigits 10 (versionsLike s key + 2)).length ≤ MAX_KEY_LENGTH

def WriteCall.counted (w : World) (call : WriteCall) (s : Store) : Prop :=
  ∀ oldKey newKey, call.versions w s = some (oldKey, newKey) → VersionsCounted s oldKey

theorem versions_key {w : World} {s : Store} {call : WriteCall} {oldKey newKey : String}
    (h : call.versions w s = some (oldKey, newKey)) :
    newKey = versionKey oldKey (versionsLike s oldKey + 2) := by
  cases call with
  | supersede key newValue kw =>
    rw [WriteCall.versions] at h
    split at h
    · next hkw =>
      obtain ⟨next, hnext, hpair⟩ := Option.map_eq_some_iff.1 h
      cases hpair
      exact successor_key hkw hnext
    · cases h
  | _ => cases h

theorem newMemory_iff (s : Store) (key : String) :
    NewMemory s key (versionKey key (versionsLike s key + 2)) ↔ VersionsCounted s key := by
  constructor
  · intro h
    obtain ⟨hslug, hroom⟩ := (keySlug_versionKey key _).1 h.valid
    refine ⟨fun n hheld hn => ?_, hslug, hroom⟩
    rw [← hn, h.free] at hheld
    cases hheld
  · intro h
    refine ⟨?_, versionKey_ne key _, (keySlug_versionKey key _).2 ⟨h.slug, h.room⟩⟩
    rw [← Bool.not_eq_true]
    exact fun hheld => h.apart _ hheld rfl

theorem writesNew_iff (w : World) (call : WriteCall) (s : Store) :
    call.writesNew w s ↔ call.counted w s := by
  constructor
  · intro h oldKey newKey hversions
    have hnew := h oldKey newKey hversions
    rw [versions_key hversions] at hnew
    exact (newMemory_iff s oldKey).1 hnew
  · intro h oldKey newKey hversions
    rw [versions_key hversions]
    exact (newMemory_iff s oldKey).2 (h oldKey newKey hversions)

/-- A note, and another one under the key of its third version. -/
def noted3 : List WriteCall :=
  [.save { key := "a", value := "the build is green" },
    .save { key := "a.v3", value := "third visit" }]

end TappsBrain
