import TappsBrain.Lib.Bfs

namespace Lib
set_option autoImplicit true
set_option relaxedAutoImplicit false

namespace PathSearch
variable {α ρ ε : Type}

/-- What a level comes to: the goal with the steps to it, or what was visited and the next level,
each point with the steps that led there. -/
inductive Outcome (α ρ : Type) where
  | found (trail : List ρ)
  | more (visited : List α) (queue : List (α × List ρ))

section Search
variable [DecidableEq α] (rows : α → Except ε (List ρ)) (target : ρ → α) (goal : α)

/-- The rows of one point, the steps to which are `trail`. -/
def scanRows (trail : List ρ) : List ρ → List α → List (α × List ρ) → Outcome α ρ
  | [], visited, queue => .more visited queue
  | row :: rest, visited, queue =>
    if target row ∈ visited then scanRows trail rest visited queue
    else if target row = goal then .found (trail ++ [row])
    else
      scanRows trail rest (target row :: visited) (queue ++ [(target row, trail ++ [row])])

/-- One level: every point of the queue in turn. -/
def scanQueue : List (α × List ρ) → List α → List (α × List ρ) → Except ε (Outcome α ρ)
  | [], visited, queue => .ok (.more visited queue)
  | (a, trail) :: rest, visited, queue =>
    match rows a with
    | .error e => .error e
    | .ok l =>
      match scanRows target goal trail l visited queue with
      | .found trail' => .ok (.found trail')
      | .more visited' queue' => scanQueue rest visited' queue'

/-- Levels, as many as are left, up to an empty one. -/
def search : Nat → List α → List (α × List ρ) → Except ε (Option (List ρ))
  | 0, _, _ => .ok none
  | left + 1, visited, queue =>
    match scanQueue rows target goal queue visited [] with
    | .error e => .error e
    | .ok (.found trail) => .ok (some trail)
    | .ok (.more _ []) => .ok none
    | .ok (.more visited' queue') => search left visited' queue'

def searchFrom (start : α) (left : Nat) : Except ε (Option (List ρ)) :=
  search rows target goal left [start] [(start, [])]

end Search
section Trails
variable (rows : α → Except ε (List ρ)) (target : ρ → α)

/-- The rows lead from one point to another. -/
inductive Trail (start : α) : List ρ → α → Prop
  | nil : Trail start [] start
  | snoc {trail l : List ρ} {a : α} {row : ρ} : Trail start trail a → rows a = .ok l → row ∈ l →
      Trail start (trail ++ [row]) (target row)

def nextPoints (a : α) : List α :=
  match rows a with
  | .ok l => l.map target
  | .error _ => []

/-- Some row that can be read leads from one point to the other. -/
def Leads (a b : α) : Prop := b ∈ nextPoints rows target a

variable {rows target} {start a : α} {trail : List ρ}

theorem Trail.steps (h : Trail rows target start trail a) :
    StepsIn (Leads rows target) start trail.length a := by
  induction h with
  | nil => exact .refl
  | @snoc trail l a row _ hrows hrow ih =>
    rw [List.length_append, List.length_singleton]
    apply StepsIn.tail ih
    rw [Leads, nextPoints, hrows]
    exact List.mem_map_of_mem hrow

end Trails
section Levels
variable [DecidableEq α] {rows : α → Except ε (List ρ)} {target : ρ → α} {start goal a : α}
  {trail l : List ρ} {visited visited' : List α} {queue queue' pending : List (α × List ρ)}
  {st : Search α} {h hop : Nat}

/-- A search without trails stands at the same place. -/
structure Mirrors (st : Search α) (visited : List α) (queue : List (α × List ρ)) : Prop where
  visited_eq : st.visited = visited
  frontier_eq : st.frontier = queue.map Prod.fst

/-- The points of a queue with valid trails of one length. -/
def Trails (rows : α → Except ε (List ρ)) (target : ρ → α) (start : α) (n : Nat)
    (queue : List (α × List ρ)) : Prop :=
  ∀ p ∈ queue, Trail rows target start p.2 p.1 ∧ p.2.length = n

/-- A scan goes on only past other points than the goal. -/
theorem scanRows_goal {part : List ρ} (hgoal : goal ∉ visited)
    (hscan : scanRows target goal trail part visited queue = .more visited' queue') :
    goal ∉ visited' := by
  induction part generalizing visited queue with
  | nil =>
    cases hscan
    exact hgoal
  | cons row part ih =>
    rw [scanRows] at hscan
    by_cases hseen : target row ∈ visited
    · rw [if_pos hseen] at hscan
      exact ih hgoal hscan
    rw [if_neg hseen] at hscan
    by_cases hfound : target row = goal
    · rw [if_pos hfound] at hscan
      cases hscan
    rw [if_neg hfound] at hscan
    apply ih _ hscan
    intro hin
    rcases List.mem_cons.mp hin with heq | hin
    · exact hfound heq.symm
    · exact hgoal hin

theorem scanRows_more (hop : Nat) (htrail : Trail rows target start trail a) (hrows : rows a = .ok l)
    {part : List ρ} (hpart : part ⊆ l) (hmirror : Mirrors st visited queue)
    (hqueue : Trails rows target start (trail.length + 1) queue)
    (hscan : scanRows target goal trail part visited queue = .more visited' queue') :
    Mirrors ((part.map target).foldl (Search.see hop) st) visited' queue' ∧
      Trails rows target start (trail.length + 1) queue' := by
  induction part generalizing st visited queue with
  | nil =>
    cases hscan
    exact ⟨hmirror, hqueue⟩
  | cons row part ih =>
    have hrow : row ∈ l := hpart List.mem_cons_self
    have hrest : part ⊆ l := fun _ hr => hpart (List.mem_cons_of_mem _ hr)
    rw [scanRows] at hscan
    rw [List.map_cons, List.foldl_cons]
    by_cases hseen : target row ∈ visited
    · rw [if_pos hseen] at hscan
      apply ih hrest _ hqueue hscan
      rw [Search.see, hmirror.visited_eq, if_pos hseen]
      exact hmirror
    rw [if_neg hseen] at hscan
    by_cases hfound : target row = goal
    · rw [if_pos hfound] at hscan
      cases hscan
    rw [if_neg hfound] at hscan
    apply ih hrest _ _ hscan
    · rw [Search.see, hmirror.visited_eq, if_neg hseen]
      constructor
      · rfl
      · simp [hmirror.frontier_eq]
    · intro p hp
      rcases List.mem_append.mp hp with hp | hp
      · exact hqueue p hp
      · rw [List.mem_singleton.mp hp]
        exact ⟨.snoc htrail hrows hrow, by simp⟩

theorem scanRows_found (htrail : Trail rows target start trail a) (hrows : rows a = .ok l)
    {part : List ρ} (hpart : part ⊆ l) (hgoal : goal ∉ visited) {trail' : List ρ}
    (hscan : scanRows target goal trail part visited queue = .found trail') :
    Trail rows target start trail' goal ∧ trail'.length = trail.length + 1 ∧
      Leads rows target a goal := by
  induction part generalizing visited queue with
  | nil => cases hscan
  | cons row part ih =>
    have hrow : row ∈ l := hpart List.mem_cons_self
    have hrest : part ⊆ l := fun _ hr => hpart (List.mem_cons_of_mem _ hr)
    rw [scanRows] at hscan
    by_cases hseen : target row ∈ visited
    · rw [if_pos hseen] at hscan
      exact ih hrest hgoal hscan
    rw [if_neg hseen] at hscan
    by_cases hfound : target row = goal
    · rw [if_pos hfound] at hscan
      cases hscan
      refine ⟨hfound ▸ .snoc htrail hrows hrow, by simp, ?_⟩
      rw [Leads, nextPoints, hrows, ← hfound]
      exact List.mem_map_of_mem hrow
    rw [if_neg hfound] at hscan
    apply ih hrest _ hscan
    intro hin
    rcases List.mem_cons.mp hin with heq | hin
    · exact hfound heq.symm
    · exact hgoal hin

/-- A level that does not come across the goal does what the level of a plain search does. -/
theorem scanQueue_more (hop : Nat) (hpending : Trails rows target start h pending)
    (hmirror : Mirrors st visited queue) (hqueue : Trails rows target start (h + 1) queue)
    (hgoal : goal ∉ visited)
    (hscan : scanQueue rows target goal pending visited queue = .ok (.more visited' queue')) :
    Mirrors (((pending.map Prod.fst).flatMap (nextPoints rows target)).foldl (Search.see hop) st)
      visited' queue' ∧ Trails rows target start (h + 1) queue' ∧ goal ∉ visited' := by
  induction pending generalizing st visited queue with
  | nil =>
    cases hscan
    exact ⟨hmirror, hqueue, hgoal⟩
  | cons p pending ih =>
    obtain ⟨a, trail⟩ := p
    obtain ⟨htrail, rfl⟩ := hpending (a, trail) List.mem_cons_self
    rw [scanQueue] at hscan
    cases hrows : rows a with
    | error e =>
      rw [hrows] at hscan
      cases hscan
    | ok l =>
      rw [hrows] at hscan
      dsimp only at hscan
      cases hfirst : scanRows target goal trail l visited queue with
      | found trail' =>
        rw [hfirst] at hscan
        cases hscan
      | more seen next =>
        rw [hfirst] at hscan
        obtain ⟨hmirror', hqueue'⟩ :=
          scanRows_more hop htrail hrows (List.Subset.refl l) hmirror hqueue hfirst
        have hgoal' := scanRows_goal hgoal hfirst
        have hpoints : nextPoints rows target a = l.map target := by
          rw [nextPoints, hrows]
        rw [List.map_cons, List.flatMap_cons, List.foldl_append, hpoints]
        exact ih (fun q hq => hpending q (List.mem_cons_of_mem _ hq)) hmirror' hqueue' hgoal' hscan

theorem scanQueue_found (hpending : Trails rows target start h pending)
    (hgoal : goal ∉ visited) {trail' : List ρ}
    (hscan : scanQueue rows target goal pending visited queue = .ok (.found trail')) :
    Trail rows target start trail' goal ∧ trail'.length = h + 1 ∧
      ∃ a ∈ pending.map Prod.fst, Leads rows target a goal := by
  induction pending generalizing visited queue with
  | nil => cases hscan
  | cons p pending ih =>
    obtain ⟨a, trail⟩ := p
    obtain ⟨htrail, rfl⟩ := hpending (a, trail) List.mem_cons_self
    have hlater := fun q hq => hpending q (List.mem_cons_of_mem _ hq)
    rw [scanQueue] at hscan
    cases hrows : rows a with
    | error e =>
      rw [hrows] at hscan
      cases hscan
    | ok l =>
      rw [hrows] at hscan
      dsimp only at hscan
      cases hfirst : scanRows target goal trail l visited queue with
      | found trail'' =>
        rw [hfirst] at hscan
        cases hscan
        obtain ⟨hvalid, hlength, hleads⟩ :=
          scanRows_found htrail hrows (List.Subset.refl l) hgoal hfirst
        exact ⟨hvalid, hlength, a, List.mem_cons_self, hleads⟩
      | more seen next =>
        rw [hfirst] at hscan
        have hgoal' := scanRows_goal hgoal hfirst
        obtain ⟨hvalid, hlength, b, hb, hleads⟩ := ih hlater hgoal' hscan
        exact ⟨hvalid, hlength, b, List.mem_cons_of_mem _ hb, hleads⟩

/-- A shortest trail to the goal within `n` steps, or none because the goal is further away. -/
def Answers (rows : α → Except ε (List ρ)) (target : ρ → α) (start goal : α) (n : Nat) :
    Option (List ρ) → Prop
  | some trail => Trail rows target start trail goal ∧ trail.length ≤ n ∧
      AtDistance (Leads rows target) start trail.length goal
  | none => ∀ d ≤ n, ¬ AtDistance (Leads rows target) start d goal

/-- A search that reads all it asks for finds the goal by a shortest trail, or finds that the goal
is further than the levels it was given. -/
theorem search_exact (hex : Explored (Leads rows target) start h st)
    (hmirror : Mirrors st visited queue) (hqueue : Trails rows target start h queue)
    (hgoal : goal ∉ visited) (left : Nat) {result : Option (List ρ)}
    (hrun : search rows target goal left visited queue = .ok result) :
    Answers rows target start goal (h + left) result := by
  have hnbrs : ∀ a b, b ∈ nextPoints rows target a ↔ Leads rows target a b := fun _ _ => Iff.rfl
  have hfar : ∀ d ≤ h, ¬ AtDistance (Leads rows target) start d goal := by
    intro d hd hdist
    apply hgoal
    rw [← hmirror.visited_eq]
    exact (hex.visited goal).mpr ⟨d, hd, hdist⟩
  induction left generalizing h st visited queue with
  | zero =>
    cases hrun
    exact hfar
  | succ left ih =>
    rw [search] at hrun
    cases hscan : scanQueue rows target goal queue visited [] with
    | error e =>
      rw [hscan] at hrun
      cases hrun
    | ok outcome =>
      rw [hscan] at hrun
      cases outcome with
      | found trail =>
        cases hrun
        obtain ⟨hvalid, hlength, a, ha, hleads⟩ := scanQueue_found hqueue hgoal hscan
        refine ⟨hvalid, by omega, ?_⟩
        rw [hlength]
        apply (hex.next_iff hnbrs).mp
        rw [hmirror.frontier_eq, hmirror.visited_eq]
        exact ⟨List.mem_flatMap.mpr ⟨a, ha, hleads⟩, hgoal⟩
      | more visited' queue' =>
        have hstart : Mirrors { st with frontier := [] } visited ([] : List (α × List ρ)) :=
          ⟨hmirror.visited_eq, rfl⟩
        obtain ⟨hmirror', hqueue', hgoal'⟩ := scanQueue_more (h + 1) hqueue hstart
          (fun p hp => absurd hp List.not_mem_nil) hgoal hscan
        rw [← hmirror.frontier_eq] at hmirror'
        have hlevel : Explored (Leads rows target) start (h + 1) _ := hex.level hnbrs
        have hfar' : ∀ d ≤ h + 1, ¬ AtDistance (Leads rows target) start d goal := by
          intro d hd hdist
          apply hgoal'
          rw [← hmirror'.visited_eq]
          exact (hlevel.visited goal).mpr ⟨d, hd, hdist⟩
        cases queue' with
        | nil =>
          cases hrun
          have hnone : ∀ v, ¬ AtDistance (Leads rows target) start (h + 1) v := by
            intro v hv
            have hin := (hlevel.frontier v).mpr hv
            have hempty := hmirror'.frontier_eq
            exact absurd (hempty ▸ hin) List.not_mem_nil
          intro d _ hdist
          rcases Nat.lt_or_ge d (h + 1) with hlt | hge
          · exact hfar d (Nat.le_of_lt_succ hlt) hdist
          · have hbeyond := not_atDistance_add hnone (d - (h + 1)) goal
            rw [Nat.add_sub_cancel' hge] at hbeyond
            exact hbeyond hdist
        | cons p queue' =>
          have hrest := ih hlevel hmirror' hqueue' hgoal' hrun hfar'
          rw [show h + (left + 1) = h + 1 + left by omega]
          exact hrest

theorem searchFrom_exact (hne : goal ≠ start) (left : Nat) {result : Option (List ρ)}
    (hrun : searchFrom rows target goal start left = .ok result) :
    Answers rows target start goal left result := by
  have hqueue : Trails rows target start 0 [(start, [])] := by
    intro p hp
    rw [List.mem_singleton.mp hp]
    exact ⟨.nil, rfl⟩
  have hgoal : goal ∉ [start] := fun hin => hne (List.mem_singleton.mp hin)
  have hexact := search_exact (explored_start _ start) ⟨rfl, rfl⟩ hqueue hgoal left hrun
  rw [Nat.zero_add] at hexact
  exact hexact

theorem scanQueue_ok (hread : ∀ p ∈ pending, ∃ l, rows p.1 = .ok l) :
    ∃ outcome, scanQueue rows target goal pending visited queue = .ok outcome := by
  induction pending generalizing visited queue with
  | nil => exact ⟨_, rfl⟩
  | cons p pending ih =>
    obtain ⟨l, hl⟩ := hread p List.mem_cons_self
    rw [scanQueue, hl]
    dsimp only
    cases scanRows target goal p.2 l visited queue with
    | found trail => exact ⟨_, rfl⟩
    | more seen next => exact ih (fun q hq => hread q (List.mem_cons_of_mem _ hq))

/-- A search fails only on a point that it can reach and not read. -/
theorem search_ok (hread : ∀ n a, StepsIn (Leads rows target) start n a → ∃ l, rows a = .ok l)
    (hqueue : Trails rows target start h queue) (hgoal : goal ∉ visited) (left : Nat) :
    ∃ result, search rows target goal left visited queue = .ok result := by
  induction left generalizing h visited queue with
  | zero => exact ⟨_, rfl⟩
  | succ left ih =>
    have hscan : ∃ outcome, scanQueue rows target goal queue visited [] = .ok outcome :=
      scanQueue_ok (fun p hp => hread _ p.1 (hqueue p hp).1.steps)
    obtain ⟨outcome, houtcome⟩ := hscan
    rw [search, houtcome]
    cases outcome with
    | found trail => exact ⟨_, rfl⟩
    | more visited' queue' =>
      have hmirror : Mirrors { visited, found := [], frontier := [] } visited
          ([] : List (α × List ρ)) := ⟨rfl, rfl⟩
      obtain ⟨-, hqueue', hgoal'⟩ := scanQueue_more 0 hqueue hmirror
        (fun p hp => absurd hp List.not_mem_nil) hgoal houtcome
      cases queue' with
      | nil => exact ⟨_, rfl⟩
      | cons p queue' => exact ih hqueue' hgoal'

theorem searchFrom_ok (hne : goal ≠ start)
    (hread : ∀ n a, StepsIn (Leads rows target) start n a → ∃ l, rows a = .ok l) (left : Nat) :
    ∃ result, searchFrom rows target goal start left = .ok result := by
  apply search_ok hread (h := 0)
  · intro p hp
    rw [List.mem_singleton.mp hp]
    exact ⟨.nil, rfl⟩
  · exact fun hin => hne (List.mem_singleton.mp hin)

end Levels
end PathSearch
end Lib
