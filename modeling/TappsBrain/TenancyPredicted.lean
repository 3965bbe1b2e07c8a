import TappsBrain.TenancyKept

namespace TappsBrain
open Lib
set_option autoImplicit true
set_option relaxedAutoImplicit false

def CollisionRecord.old (c : CollisionRecord) : Identity := ⟨c.oldProject, c.oldAgent, c.rowId⟩

/-- The plan lists `m` as the loser of its collision. -/
def Stays (collisions : List CollisionRecord) (m : Rehome) : Prop :=
  ∃ c ∈ collisions, c.old = m.old ∧ c.winner = .existing

instance (collisions : List CollisionRecord) (m : Rehome) : Decidable (Stays collisions m) :=
  inferInstanceAs (Decidable (∃ c ∈ collisions, c.old = m.old ∧ c.winner = .existing))

/-- Of two moves of which one goes where the other comes from, the first is to stay. -/
def ChainsStay (plan : TablePlan) : Prop :=
  (rehomes plan.groups).Pairwise
    (fun m later => m.target = later.old ∨ later.target = m.old → Stays plan.collisions m)

instance (plan : TablePlan) : Decidable (ChainsStay plan) :=
  inferInstanceAs (Decidable ((rehomes plan.groups).Pairwise
    (fun m later => m.target = later.old ∨ later.target = m.old → Stays plan.collisions m)))

/-- A table was migrated as planned: the collisions met are those listed, and each move found the
row that was stored under its old identity when the transaction began. -/
structure AsPlanned (plan : TablePlan) (logs : List RehomeLog) : Prop where
  collisions : logs.filterMap RehomeLog.resolved = plan.collisions
  moved : logs.map (fun log => (log.move, log.found)) =
    (rehomes plan.groups).map (fun m => (m, some m.old))

section Table
variable {ρ : Type} [TenantRow ρ] {x : DbSession} {t : TenantTable ρ}
  {holders : Identity → Option String} {m : Rehome} {todo : List Rehome} {s u : ApplyState ρ}
  {log : RehomeLog} {logs : List RehomeLog} {id : Identity}

/-- The collision the plan lists for a move, if it lists one. -/
def foreseen (x : DbSession) (t : TenantTable ρ) (holders : Identity → Option String) (m : Rehome) :
    Option CollisionRecord :=
  ((holders m.target).or (fetchRowTimestamp x t m.target)).map
    (collisionRecord m ((fetchRowTimestamp x t m.old).getD ""))

/-- The timestamp that holds the target once the move is planned. -/
def heldAfter (x : DbSession) (t : TenantTable ρ) (holders : Identity → Option String)
    (m : Rehome) : String :=
  match foreseen x t holders m with
  | none => (fetchRowTimestamp x t m.old).getD ""
  | some c =>
    match c.winner with
    | .source => c.sourceTimestamp
    | .existing => c.existingTimestamp

theorem detectCollisions_cons (m : Rehome) (rest : List Rehome) :
    detectCollisions x t holders (m :: rest) = (foreseen x t holders m).toList ++
      detectCollisions x t (Function.update holders m.target (some (heldAfter x t holders m)))
        rest := by
  simp only [detectCollisions, heldAfter, foreseen]
  cases (holders m.target).or (fetchRowTimestamp x t m.target) with
  | none => rfl
  | some existing => rfl

theorem foreseen_old {c : CollisionRecord} (h : foreseen x t holders m = some c) :
    c.old = m.old := by
  obtain ⟨existing, -, rfl⟩ := Option.map_eq_some_iff.1 h
  rfl

theorem detectCollisions_old {c : CollisionRecord} (h : c ∈ detectCollisions x t holders todo) :
    ∃ m ∈ todo, c.old = m.old := by
  induction todo generalizing holders with
  | nil => cases h
  | cons m rest ih =>
    rw [detectCollisions_cons, List.mem_append] at h
    obtain h | h := h
    · exact ⟨m, List.mem_cons_self, foreseen_old (Option.mem_toList.1 h)⟩
    · obtain ⟨m', hm', hold⟩ := ih h
      exact ⟨m', List.mem_cons_of_mem m hm', hold⟩

theorem RehomeStep.resolved_old {c : CollisionRecord} (h : RehomeStep x m s log u)
    (hc : log.resolved = some c) : c.old = m.old := by
  cases h with
  | gone => cases hc
  | source => cases hc
  | collision _ _ hrecord _ =>
    cases hc
    rw [hrecord]
    rfl
  | existing _ _ hrecord _ =>
    cases hc
    rw [hrecord]
    rfl

theorem run_resolved_old {c : CollisionRecord} (hrun : RehomeRun x todo s logs u)
    (hc : c ∈ logs.filterMap RehomeLog.resolved) : ∃ m ∈ todo, c.old = m.old := by
  induction hrun with
  | nil => cases hc
  | @cons m rest s v u log logs hstep _ ih =>
    obtain ⟨l, hl, hresolved⟩ := List.mem_filterMap.1 hc
    obtain rfl | hl := List.mem_cons.1 hl
    · exact ⟨m, List.mem_cons_self, hstep.resolved_old hresolved⟩
    · obtain ⟨m', hm', hold⟩ := ih (List.mem_filterMap.2 ⟨l, hl, hresolved⟩)
      exact ⟨m', List.mem_cons_of_mem m hm', hold⟩

theorem filterMap_resolved_cons (log : RehomeLog) (logs : List RehomeLog) :
    (log :: logs).filterMap RehomeLog.resolved =
      log.resolved.toList ++ logs.filterMap RehomeLog.resolved := by
  cases h : log.resolved <;> simp [h]

/-- Records of one move stand apart from those of the others. -/
theorem records_aligned {a b : Option CollisionRecord} {l l' : List CollisionRecord}
    (ha : ∀ c, a = some c → c.old = id) (hb : ∀ c, b = some c → c.old = id)
    (hl : ∀ c ∈ l, c.old ≠ id) (hl' : ∀ c ∈ l', c.old ≠ id)
    (h : a.toList ++ l = b.toList ++ l') : a = b ∧ l = l' := by
  cases a with
  | none =>
    cases b with
    | none => exact ⟨rfl, h⟩
    | some c =>
      have hmem : c ∈ l := by
        have hl : l = c :: l' := h
        rw [hl]
        exact List.mem_cons_self
      exact absurd (hb c rfl) (hl c hmem)
  | some c =>
    cases b with
    | none =>
      have hmem : c ∈ l' := by
        have hl' : c :: l = l' := h
        rw [← hl']
        exact List.mem_cons_self
      exact absurd (ha c rfl) (hl' c hmem)
    | some c' =>
      obtain ⟨rfl, rfl⟩ := List.cons.inj h
      exact ⟨rfl, rfl⟩

/-- A run that meets the listed collisions meets them move by move. -/
theorem collisions_cons {v : ApplyState ρ} {rest : List Rehome} (hstep : RehomeStep x m s log v)
    (hrun : RehomeRun x rest v logs u) (hnodup : m.old ∉ rest.map Rehome.old) :
    (log :: logs).filterMap RehomeLog.resolved = detectCollisions x t holders (m :: rest) ↔
      log.resolved = foreseen x t holders m ∧ logs.filterMap RehomeLog.resolved =
        detectCollisions x t (Function.update holders m.target (some (heldAfter x t holders m)))
          rest := by
  rw [filterMap_resolved_cons, detectCollisions_cons]
  have hother : ∀ c : CollisionRecord, (∃ m' ∈ rest, c.old = m'.old) → c.old ≠ m.old := by
    rintro c ⟨m', hm', hold⟩ heq
    exact hnodup (List.mem_map.2 ⟨m', hm', hold.symm.trans heq⟩)
  constructor
  · intro h
    apply @records_aligned m.old _ _ _ _ _ _ _ _ h
    · exact fun c hc => hstep.resolved_old hc
    · exact fun c hc => foreseen_old hc
    · exact fun c hc => hother c (run_resolved_old hrun hc)
    · exact fun c hc => hother c (detectCollisions_old hc)
  · rintro ⟨hhead, htail⟩
    rw [hhead, htail]

/-- The plan's view of the moves to come is that of the run. -/
structure Foresees (x : DbSession) (t : TenantTable ρ) (holders : Identity → Option String)
    (todo : List Rehome) (s : ApplyState ρ) : Prop where
  source : ∀ m ∈ todo, s.live.get? m.old = t.get? m.old
  stored : ∀ m ∈ todo, (t.get? m.old).isSome
  whence : ∀ m ∈ todo, s.whence m.old = m.old
  target : ∀ m ∈ todo, fetchRowTimestamp x s.live m.target =
    (holders m.target).or (fetchRowTimestamp x t m.target)

/-- What a foreseen move does: its collision is the listed one, and it lands unless it is listed to
stay. -/
structure StepForeseen (x : DbSession) (t : TenantTable ρ) (holders : Identity → Option String)
    (m : Rehome) (s : ApplyState ρ) (log : RehomeLog) (u : ApplyState ρ) : Prop where
  resolved : log.resolved = foreseen x t holders m
  found : log.move = m ∧ log.found = some m.old
  state : u = s ∧ (∃ c, foreseen x t holders m = some c ∧ c.winner = .existing) ∨
    (∀ c, foreseen x t holders m = some c → c.winner = .source) ∧
      (∃ row, t.get? m.old = some row ∧ ∀ id, u.live.get? id =
        if id = m.target then some (land m row) else if id = m.old then none
        else s.live.get? id) ∧
      u.whence = Function.update s.whence m.target m.old
  held : fetchRowTimestamp x u.live m.target = some (heldAfter x t holders m)

theorem RehomeStep.foreseen (h : RehomeStep x m s log u)
    (hsource : s.live.get? m.old = t.get? m.old) (hstored : (t.get? m.old).isSome)
    (hwhence : s.whence m.old = m.old)
    (htarget : fetchRowTimestamp x s.live m.target =
      (holders m.target).or (fetchRowTimestamp x t m.target)) :
    StepForeseen x t holders m s log u := by
  have hstamp (row : ρ) : TenantRow.timestamp (land m row) = TenantRow.timestamp row :=
    TenantRow.timestamp_rehomed _ _ _
  cases h with
  | gone hgone =>
    rw [← hsource, hgone] at hstored
    cases hstored
  | @source row hold hvacant =>
    have hnone : TappsBrain.foreseen x t holders m = none := by
      rw [TappsBrain.foreseen, ← htarget]
      simp only [fetchRowTimestamp, hvacant, Option.map_none]
    have hrow : t.get? m.old = some row := hsource.symm.trans hold
    refine ⟨hnone.symm, ⟨rfl, congrArg some hwhence⟩, .inr ⟨?_, ⟨row, hrow, ?_⟩, ?_⟩, ?_⟩
    · intro c hc
      cases hnone.symm.trans hc
    · exact landed_get? (Table.key_of_get? hold)
    · simp only [landed, hwhence]
    · rw [heldAfter, hnone, fetchRowTimestamp, landed_get? (Table.key_of_get? hold), if_pos rfl,
        fetchRowTimestamp, hrow, Option.map_some, hstamp]
      rfl
  | @collision row other record hold hother hrecord hwinner =>
    have hrow : t.get? m.old = some row := hsource.symm.trans hold
    have hsome : TappsBrain.foreseen x t holders m = some record := by
      rw [TappsBrain.foreseen, ← htarget, hrecord]
      simp only [fetchRowTimestamp, hother, hrow, Option.map_some, Option.getD_some]
    refine ⟨hsome.symm, ⟨rfl, congrArg some hwhence⟩, .inr ⟨?_, ⟨row, hrow, ?_⟩, ?_⟩, ?_⟩
    · intro c hc
      cases hsome.symm.trans hc
      exact hwinner
    · exact landed_archive_get? (Table.key_of_get? hold)
    · simp only [landed, archiveAndDeleteOne, hwhence]
    · rw [heldAfter, hsome, fetchRowTimestamp, landed_archive_get? (Table.key_of_get? hold),
        if_pos rfl, Option.map_some, hstamp]
      simp only [hwinner]
      rw [hrecord]
      rfl
  | @existing row other record hold hother hrecord hwinner =>
    have hrow : t.get? m.old = some row := hsource.symm.trans hold
    have hsome : TappsBrain.foreseen x t holders m = some record := by
      rw [TappsBrain.foreseen, ← htarget, hrecord]
      simp only [fetchRowTimestamp, hother, hrow, Option.map_some, Option.getD_some]
    refine ⟨hsome.symm, ⟨rfl, congrArg some hwhence⟩, .inl ⟨rfl, record, hsome, hwinner⟩, ?_⟩
    rw [heldAfter, hsome, fetchRowTimestamp, hother]
    simp only [hwinner]
    rw [hrecord]
    rfl

/-- The view stays right unless the move lands on, or leaves, what a later one is about. -/
theorem StepForeseen.next {rest : List Rehome} (h : StepForeseen x t holders m s log u)
    (hforesees : Foresees x t holders (m :: rest) s) (hnodup : m.old ∉ rest.map Rehome.old)
    (hapart : (∀ c, TappsBrain.foreseen x t holders m = some c → c.winner = .source) →
      ∀ later ∈ rest, m.target ≠ later.old ∧ later.target ≠ m.old) :
    Foresees x t (Function.update holders m.target (some (heldAfter x t holders m))) rest u := by
  have htarget : ∀ later ∈ rest, (later.target ≠ m.target →
      fetchRowTimestamp x u.live later.target = fetchRowTimestamp x s.live later.target) →
      fetchRowTimestamp x u.live later.target =
        (Function.update holders m.target (some (heldAfter x t holders m)) later.target).or
          (fetchRowTimestamp x t later.target) := by
    intro later hlater hsame
    by_cases heq : later.target = m.target
    · rw [heq, Function.update_self, h.held, Option.some_or]
    · rw [Function.update_of_ne heq, hsame heq]
      exact hforesees.target later (List.mem_cons_of_mem m hlater)
  obtain ⟨rfl, hstays⟩ | ⟨hsource, ⟨row, hrow, hlive⟩, hwhence⟩ := h.state
  · constructor
    · exact fun later hlater => hforesees.source later (List.mem_cons_of_mem m hlater)
    · exact fun later hlater => hforesees.stored later (List.mem_cons_of_mem m hlater)
    · exact fun later hlater => hforesees.whence later (List.mem_cons_of_mem m hlater)
    · exact fun later hlater => htarget later hlater (fun _ => rfl)
  · have hold : ∀ later ∈ rest, later.old ≠ m.old := by
      intro later hlater heq
      exact hnodup (List.mem_map.2 ⟨later, hlater, heq⟩)
    constructor
    · intro later hlater
      obtain ⟨hne, -⟩ := hapart hsource later hlater
      rw [hlive, if_neg (Ne.symm hne), if_neg (hold later hlater)]
      exact hforesees.source later (List.mem_cons_of_mem m hlater)
    · exact fun later hlater => hforesees.stored later (List.mem_cons_of_mem m hlater)
    · intro later hlater
      obtain ⟨hne, -⟩ := hapart hsource later hlater
      rw [hwhence, Function.update_of_ne (Ne.symm hne)]
      exact hforesees.whence later (List.mem_cons_of_mem m hlater)
    · intro later hlater
      obtain ⟨-, hne⟩ := hapart hsource later hlater
      apply htarget later hlater
      intro hother
      simp only [fetchRowTimestamp, hlive, if_neg hother, if_neg hne]

theorem RehomeStep.found (h : RehomeStep x m s log u) :
    log.move = m ∧ (log.found = none ∨ log.found = some (s.whence m.old)) := by
  cases h with
  | gone => exact ⟨rfl, .inl rfl⟩
  | source => exact ⟨rfl, .inr rfl⟩
  | collision => exact ⟨rfl, .inr rfl⟩
  | existing => exact ⟨rfl, .inr rfl⟩

theorem RehomeStep.whence (h : RehomeStep x m s log u) :
    u.whence = s.whence ∨ u.whence = Function.update s.whence m.target (s.whence m.old) := by
  cases h with
  | gone => exact .inl rfl
  | source => exact .inr rfl
  | collision => exact .inr rfl
  | existing => exact .inl rfl

/-- Once a stranger sits where a later move starts, that move does not find its own row. -/
theorem run_displaced (hrun : RehomeRun x todo s logs u) (hid : s.whence id ≠ id)
    (hmoved : logs.map (fun log => (log.move, log.found)) = todo.map (fun m => (m, some m.old))) :
    ∀ m ∈ todo, m.old ≠ id := by
  induction hrun with
  | nil =>
    intro m hm
    cases hm
  | @cons m rest s v u log logs hstep hrun ih =>
    obtain ⟨hhead, htail⟩ := List.cons.inj hmoved
    have hfound : s.whence m.old = m.old := by
      obtain ⟨-, hnone | hsome⟩ := hstep.found
      · cases hnone.symm.trans (Prod.mk.inj hhead).2
      · exact Option.some.inj (hsome.symm.trans (Prod.mk.inj hhead).2)
    have hne : m.old ≠ id := by
      rintro rfl
      exact hid hfound
    have hnext : v.whence id ≠ id := by
      obtain hv | hv := hstep.whence
      · rwa [hv]
      · rw [hv, Function.update_apply, hfound]
        split
        · exact hne
        · exact hid
    intro m' hm'
    obtain rfl | hm' := List.mem_cons.1 hm'
    · exact hne
    · exact ih hnext htail m' hm'

/-- Where a listed collision finds its target vacated, it does not happen. -/
theorem run_vacated (hrun : RehomeRun x todo s logs u) (hid : s.live.get? id = none)
    (hstored : (t.get? id).isSome) (hnodup : (todo.map Rehome.old).Nodup)
    (hcollisions : logs.filterMap RehomeLog.resolved = detectCollisions x t holders todo) :
    ∀ m ∈ todo, m.target ≠ id := by
  induction hrun generalizing holders with
  | nil =>
    intro m hm
    cases hm
  | @cons m rest s v u log logs hstep hrun ih =>
    obtain ⟨hnotMem, hnodup⟩ := List.nodup_cons.1 hnodup
    obtain ⟨hhead, htail⟩ := (collisions_cons hstep hrun hnotMem).1 hcollisions
    have hne : m.target ≠ id := by
      rintro rfl
      have hlisted : (foreseen x t holders m).isSome := by
        simp [foreseen, fetchRowTimestamp, hstored]
      rw [← hhead] at hlisted
      cases hstep with
      | gone => cases hlisted
      | source => cases hlisted
      | collision _ hother _ _ => cases hid.symm.trans hother
      | existing _ hother _ _ => cases hid.symm.trans hother
    have hnext : v.live.get? id = none := by
      obtain rfl | ⟨row, -, hlive⟩ := hstep.live
      · exact hid
      · rw [hlive, if_neg (Ne.symm hne), hid, ite_self]
    intro m' hm'
    obtain rfl | hm' := List.mem_cons.1 hm'
    · exact hne
    · exact ih hnext hnodup htail m' hm'

/-- The run goes as planned exactly when every chain stays. -/
theorem run_asPlanned_iff (hrun : RehomeRun x todo s logs u)
    (hapart : ∀ m ∈ todo, m.target ≠ m.old) (hnodup : (todo.map Rehome.old).Nodup)
    (hforesees : Foresees x t holders todo s) :
    (logs.filterMap RehomeLog.resolved = detectCollisions x t holders todo ∧
      logs.map (fun log => (log.move, log.found)) = todo.map (fun m => (m, some m.old))) ↔
    todo.Pairwise (fun m later => m.target = later.old ∨ later.target = m.old →
      Stays (detectCollisions x t holders todo) m) := by
  induction hrun generalizing holders with
  | nil => simp [detectCollisions]
  | @cons m rest s v u log logs hstep hrun ih =>
    obtain ⟨hnotMem, hnodupRest⟩ := List.nodup_cons.1 hnodup
    have hmem : m ∈ m :: rest := List.mem_cons_self
    have hforeseen := hstep.foreseen (hforesees.source m hmem) (hforesees.stored m hmem)
      (hforesees.whence m hmem) (hforesees.target m hmem)
    have hotherOld : ∀ later ∈ rest, later.old ≠ m.old := by
      intro later hlater heq
      exact hnotMem (List.mem_map.2 ⟨later, hlater, heq⟩)
    -- the records of the later moves name the later moves
    have hstaysHead : Stays (detectCollisions x t holders (m :: rest)) m ↔
        ∃ c, foreseen x t holders m = some c ∧ c.winner = .existing := by
      rw [detectCollisions_cons]
      constructor
      · rintro ⟨c, hc, hold, hwinner⟩
        obtain hc | hc := List.mem_append.1 hc
        · exact ⟨c, Option.mem_toList.1 hc, hwinner⟩
        · obtain ⟨later, hlater, hold'⟩ := detectCollisions_old hc
          exact absurd (hold'.symm.trans hold) (hotherOld later hlater)
      · rintro ⟨c, hc, hwinner⟩
        exact ⟨c, List.mem_append_left _ (Option.mem_toList.2 hc), foreseen_old hc, hwinner⟩
    have hstaysRest : ∀ later ∈ rest, (Stays (detectCollisions x t holders (m :: rest)) later ↔
        Stays (detectCollisions x t
          (Function.update holders m.target (some (heldAfter x t holders m))) rest) later) := by
      intro later hlater
      rw [detectCollisions_cons]
      constructor
      · rintro ⟨c, hc, hold, hwinner⟩
        obtain hc | hc := List.mem_append.1 hc
        · have hsame := (foreseen_old (Option.mem_toList.1 hc)).symm.trans hold
          exact absurd hsame.symm (hotherOld later hlater)
        · exact ⟨c, hc, hold, hwinner⟩
      · rintro ⟨c, hc, hrest⟩
        exact ⟨c, List.mem_append_right _ hc, hrest⟩
    rw [collisions_cons hstep hrun hnotMem, List.pairwise_cons]
    by_cases hchain : ∀ later ∈ rest, m.target = later.old ∨ later.target = m.old →
        Stays (detectCollisions x t holders (m :: rest)) m
    · have hnext : Foresees x t
          (Function.update holders m.target (some (heldAfter x t holders m))) rest v := by
        apply hforeseen.next hforesees hnotMem
        intro hsource later hlater
        have hmoves : ¬ Stays (detectCollisions x t holders (m :: rest)) m := by
          rw [hstaysHead]
          rintro ⟨c, hc, hwinner⟩
          cases hwinner.symm.trans (hsource c hc)
        constructor
        · exact fun heq => hmoves (hchain later hlater (.inl heq))
        · exact fun heq => hmoves (hchain later hlater (.inr heq))
      have hpairs : rest.Pairwise (fun earlier later =>
          earlier.target = later.old ∨ later.target = earlier.old →
            Stays (detectCollisions x t holders (m :: rest)) earlier) ↔ _ :=
        List.Pairwise.iff_of_mem (fun hlater _ => imp_congr_right (fun _ => hstaysRest _ hlater))
      rw [hpairs, ← ih (fun later hlater => hapart later (List.mem_cons_of_mem m hlater)) hnodupRest
        hnext]
      constructor
      · rintro ⟨⟨-, hcollisions⟩, hmoved⟩
        exact ⟨hchain, hcollisions, (List.cons.inj hmoved).2⟩
      · rintro ⟨-, hcollisions, hmoved⟩
        refine ⟨⟨hforeseen.resolved, hcollisions⟩, ?_⟩
        rw [List.map_cons, List.map_cons, hmoved, hforeseen.found.1, hforeseen.found.2]
    · apply iff_of_false _ (fun h => hchain h.1)
      rintro ⟨⟨-, hcollisions⟩, hmoved⟩
      apply hchain
      intro later hlater hclash
      rw [hstaysHead]
      obtain ⟨-, hstays⟩ | ⟨-, ⟨row, -, hlive⟩, hwhence⟩ := hforeseen.state
      · exact hstays
      · exfalso
        have htail := (List.cons.inj hmoved).2
        obtain heq | heq := hclash
        · have hstranger : v.whence m.target ≠ m.target := by
            rw [hwhence, Function.update_self, heq]
            exact Ne.symm (hotherOld later hlater)
          exact run_displaced hrun hstranger htail later hlater heq.symm
        · have hvacant : v.live.get? m.old = none := by
            rw [hlive, if_neg (Ne.symm (hapart m hmem)), if_pos rfl]
          exact run_vacated hrun hvacant (hforesees.stored m hmem) hnodupRest hcollisions later
            hlater heq

variable {plan : TablePlan} {classify : ρ → Classification}

theorem Planned.foresees (h : Planned t classify plan) :
    Foresees x t (fun _ => none) (rehomes plan.groups) (snapshotTable t) := by
  constructor
  · exact fun _ _ => rfl
  · intro m hm
    obtain ⟨row, -, hget, -⟩ := h.row_of_old hm
    rw [hget]
    rfl
  · exact fun _ _ => rfl
  · exact fun _ _ => rfl

theorem Planned.asPlanned_iff (h : Planned t classify plan)
    (hcollisions : plan.collisions =
      detectCollisions x t (fun _ => none) (rehomes plan.groups))
    (hrun : RehomeRun x (rehomes plan.groups) (snapshotTable t) logs u) :
    AsPlanned plan logs ↔ ChainsStay plan := by
  have hiff := run_asPlanned_iff hrun h.apart h.nodup h.foresees
  rw [← hcollisions] at hiff
  rw [ChainsStay, ← hiff]
  exact ⟨fun hplan => ⟨hplan.collisions, hplan.moved⟩, fun hplan => ⟨hplan.1, hplan.2⟩⟩

theorem RehomeStep.collided (h : RehomeStep x m s log u) (hlog : log.collided = true) :
    ∃ c, log.resolved = some c ∧ c.target = log.move.target := by
  cases h with
  | gone => cases hlog
  | source => cases hlog
  | collision _ _ hrecord _ => exact ⟨_, rfl, hrecord ▸ rfl⟩
  | existing _ _ hrecord _ => exact ⟨_, rfl, hrecord ▸ rfl⟩

theorem run_collided (hrun : RehomeRun x todo s logs u) (hlog : log ∈ logs)
    (hcollided : log.collided = true) : ∃ c, log.resolved = some c ∧ c.target = log.move.target := by
  induction hrun with
  | nil => cases hlog
  | cons hstep _ ih =>
    obtain rfl | hlog := List.mem_cons.1 hlog
    · exact hstep.collided hcollided
    · exact ih hlog

/-- A run as planned meets no collision that is not listed. -/
theorem AsPlanned.unpredicted (h : AsPlanned plan logs)
    (hrun : RehomeRun x todo s logs u) : unpredicted plan logs = [] := by
  apply List.filter_eq_nil_iff.2
  intro target htarget hlisted
  obtain ⟨log, hlog, rfl⟩ := List.mem_map.1 htarget
  obtain ⟨hlog, hcollided⟩ := List.mem_filter.1 hlog
  obtain ⟨c, hc, hsame⟩ := run_collided hrun hlog hcollided
  have hmem : c ∈ plan.collisions := by
    rw [← h.collisions]
    exact List.mem_filterMap.2 ⟨log, hlog, hc⟩
  have hcontains : (plan.collisions.map CollisionRecord.target).contains log.move.target = true :=
    List.contains_iff_mem.2 (List.mem_map.2 ⟨c, hmem, hsame⟩)
  rw [hcontains] at hlisted
  cases hlisted

theorem applyTable_asPlanned_iff {name archiveTable : String} {names : List String}
    (h : Planned t classify plan)
    (hcollisions : plan.collisions =
      detectCollisions x t (fun _ => none) (rehomes plan.groups)) :
    (∃ r, applyTable x name plan names archiveTable t = .ok r ∧ AsPlanned plan r.2.1) ↔
      archiveTable ∉ names ∧ ChainsStay plan := by
  constructor
  · rintro ⟨r, hok, hplan⟩
    obtain ⟨moved, hrun, -⟩ := applyTable_ok h hok
    exact ⟨applyTable_fresh hok, (h.asPlanned_iff hcollisions hrun).1 hplan⟩
  · rintro ⟨hname, hchains⟩
    obtain ⟨logs, moved, hrun, happlied⟩ :=
      @applyTable_run _ _ x name archiveTable names plan t classify h hname
    have hplan := (h.asPlanned_iff hcollisions hrun).2 hchains
    obtain ⟨-, result, hok⟩ | ⟨hun, -⟩ := happlied
    · exact ⟨_, hok, hplan⟩
    · exact absurd (hplan.unpredicted hrun) hun

/-- Without chains there is nothing to stay. -/
theorem TargetsFree.chainsStay (hfree : TargetsFree t classify) (h : Planned t classify plan) :
    ChainsStay plan := by
  have hapart : ∀ m ∈ rehomes plan.groups, ∀ m' ∈ rehomes plan.groups, m.target ≠ m'.old := by
    intro m hm m' hm' heq
    obtain ⟨row, hrow, hold⟩ := h.old hm'
    exact hfree row hrow (h.reached.2 ⟨m, hm, heq.trans hold.symm⟩)
  have hall : (rehomes plan.groups).Pairwise (fun _ _ => True) :=
    List.pairwise_of_forall (fun _ _ => trivial)
  apply hall.imp_of_mem
  rintro m later hm hlater - (heq | heq)
  · exact absurd heq (hapart m hm later hlater)
  · exact absurd heq (hapart later hlater m hm)

end Table

/-- The archive tables can be created. -/
structure ArchivesFree (db : Database) (archiveTable : String) : Prop where
  valid : validArchiveTableName archiveTable = true
  validRelations : validArchiveTableName (relationsArchiveTable archiveTable) = true
  fresh : archiveTable ∉ db.names
  freshRelations : db.relations.isSome → relationsArchiveTable archiveTable ∉ db.names

section Plan
variable {x : DbSession} {db : Database} {agentProjectMap : Option (List (String × String))}
  {ingestWindow : Option (String × String)} {archiveTable : String} {plan : MigrationPlan}

theorem applyRelations_asPlanned_iff {plan : TablePlan}
    (h : Planned db.relationRows classifyRelationRow plan)
    (hcollisions : plan.collisions =
      detectCollisions x db.relationRows (fun _ => none) (rehomes plan.groups)) :
    (∃ r, applyRelations x plan db archiveTable = .ok r ∧
      AsPlanned plan ((r.map (fun applied => applied.2.1)).getD [])) ↔
    (db.relations.isSome → relationsArchiveTable archiveTable ∉ db.names) := by
  have hchains : ChainsStay plan := (targetsFree_relations db.relationRows).chainsStay h
  unfold applyRelations
  cases hrelations : db.relations with
  | none =>
    have hrows : db.relationRows = Table.empty := by
      simp only [Database.relationRows, hrelations, Option.getD_none]
    rw [hrows] at h hcollisions
    obtain ⟨hmoves, -⟩ := h.empty_moves
    have hlive : plan.liveCount = 0 := h.live
    rw [hmoves] at hcollisions
    apply iff_of_true
    · refine ⟨none, by simp [hlive], ?_, ?_⟩
      · exact hcollisions.symm
      · rw [hmoves]
        rfl
    · intro hsome
      cases hsome
  | some table =>
    have hrows : db.relationRows = table := by
      simp only [Database.relationRows, hrelations, Option.getD_some]
    rw [hrows] at h hcollisions
    have hiff : (∃ r, applyTable x "private_relations" plan db.names
        (relationsArchiveTable archiveTable) table = .ok r ∧ AsPlanned plan r.2.1) ↔ _ :=
      applyTable_asPlanned_iff h hcollisions
    constructor
    · rintro ⟨r, hok, hplan⟩ -
      obtain ⟨applied, happlied, hr⟩ := bind_eq_ok hok
      cases hr
      exact (hiff.1 ⟨applied, happlied, hplan⟩).1
    · intro hname
      obtain ⟨applied, happlied, hplan⟩ := hiff.2 ⟨hname rfl, hchains⟩
      refine ⟨some applied, ?_, hplan⟩
      dsimp only
      rw [happlied]
      rfl

/-- The plan predicts its application exactly when the archive tables can be created and every
chain of memories stays. -/
theorem plan_predicts_apply (h : buildPlan x db agentProjectMap ingestWindow = .ok plan) :
    (∃ result, applyPlan x db plan archiveTable = .ok result ∧
      AsPlanned plan.memories result.memories.2.1 ∧
      AsPlanned plan.relations result.relationLogs) ↔
    ArchivesFree db archiveTable ∧ ChainsStay plan.memories := by
  obtain ⟨⟨hmemories, hforeseen⟩, hrelations, hforeseen'⟩ := buildPlan_planned h
  have hiff : (∃ r, applyTable x "private_memories" plan.memories db.names archiveTable
      db.memories = .ok r ∧ AsPlanned plan.memories r.2.1) ↔ _ :=
    applyTable_asPlanned_iff hmemories hforeseen
  have hiff' : (∃ r, applyRelations x plan.relations db archiveTable = .ok r ∧
      AsPlanned plan.relations ((r.map (fun applied => applied.2.1)).getD [])) ↔ _ :=
    applyRelations_asPlanned_iff hrelations hforeseen'
  constructor
  · rintro ⟨result, hok, hplan, hplan'⟩
    obtain ⟨hvalid, hvalid'⟩ := applyPlan_valid hok
    obtain ⟨hokMemories, hokRelations⟩ := applyPlan_ok hok
    obtain ⟨hfresh, hchains⟩ := hiff.1 ⟨_, hokMemories, hplan⟩
    have hfresh' := hiff'.1 ⟨_, hokRelations, hplan'⟩
    exact ⟨⟨hvalid, hvalid', hfresh, hfresh'⟩, hchains⟩
  · rintro ⟨harchives, hchains⟩
    obtain ⟨memories, hokMemories, hplan⟩ := hiff.2 ⟨harchives.fresh, hchains⟩
    obtain ⟨relations, hokRelations, hplan'⟩ := hiff'.2 harchives.freshRelations
    refine ⟨⟨memories, relations⟩, ?_, hplan, hplan'⟩
    unfold applyPlan
    simp only [harchives.valid, harchives.validRelations]
    rw [hokMemories]
    change (applyRelations x plan.relations db archiveTable >>= _) = _
    rw [hokRelations]
    rfl

end Plan

/-- Two memories of one key, each of which is to go where the other is. -/
def swapDb : Database :=
  scoutDb [scoutRow "api" "deploy" "a2" 2024, scoutRow "main" "deploy" "a1" 2026] ["api", "main"]

def swapMap : Option (List (String × String)) := some [("a1", "api"), ("a2", "main")]

theorem swap_predicted : ∃ plan, buildPlan utcYears swapDb swapMap none = .ok plan ∧
    ∃ result, applyPlan utcYears swapDb plan "archive_v1" = .ok result ∧
      AsPlanned plan.memories result.memories.2.1 ∧
      AsPlanned plan.relations result.relationLogs := by
  have hstays : (match buildPlan utcYears swapDb swapMap none with
      | .ok plan => decide (ChainsStay plan.memories)
      | .error _ => false) = true := by decide +kernel
  cases hplan : buildPlan utcYears swapDb swapMap none with
  | error e =>
    rw [hplan] at hstays
    cases hstays
  | ok plan =>
    rw [hplan] at hstays
    refine ⟨plan, rfl, (plan_predicts_apply hplan).2 ⟨?_, of_decide_eq_true hstays⟩⟩
    constructor
    · decide +kernel
    · decide +kernel
    · decide
    · intro hsome
      cases hsome

/-- `a1` is to go where the memory of `a2` is, which leaves first. -/
def chainDb : Database :=
  scoutDb [scoutRow "main" "deploy" "a1" 2026, scoutRow "api" "deploy" "a2" 2025] ["api", "proj"]

def chainMap : Option (List (String × String)) := some [("a1", "api"), ("a2", "proj")]

theorem chain_not_predicted : ∃ plan result,
    planAndApply utcYears chainDb chainMap none "archive_v1" = .ok (plan, result) ∧
    ¬ AsPlanned plan.memories result.memories.2.1 := by
  have hparts : (match planAndApply utcYears chainDb chainMap none "archive_v1" with
      | .ok (plan, result) => decide (result.memories.2.1.filterMap RehomeLog.resolved ≠
          plan.memories.collisions)
      | .error _ => false) = true := by decide +kernel
  cases hrun : planAndApply utcYears chainDb chainMap none "archive_v1" with
  | error e =>
    rw [hrun] at hparts
    cases hparts
  | ok applied =>
    obtain ⟨plan, result⟩ := applied
    rw [hrun] at hparts
    refine ⟨plan, result, rfl, ?_⟩
    intro hplan
    exact of_decide_eq_true hparts hplan.collisions

end TappsBrain
