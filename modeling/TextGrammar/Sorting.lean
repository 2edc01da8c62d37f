/-!
Sorting by runs: a list is split into runs that are sorted already, short runs are filled up by
insertion, and neighbours are merged. Among items that all compare this is a stable sort. Among
others the place of an item depends on the items it was compared with, and these are fixed here.
`perm_sortedByRuns` says that nothing is lost.
-/
namespace TextGrammar.Sorting

variable {α : Type} (isBefore : α → α → Bool)

/-- The first place from a low one on, below a high one, that is not below, found by halving. -/
def boundary (isBelow : Nat → Bool) (low high : Nat) : Nat :=
  if low < high then
    let middle := low + (high - low) / 2
    if isBelow middle then boundary isBelow (middle + 1) high else boundary isBelow low middle
  else low
  termination_by high - low
  decreasing_by all_goals omega

/-- The last distance that was still within and the first one that was not, at ever longer strides
up to a limit. -/
def stride (isWithin : Nat → Bool) (limit : Nat) : Nat → Nat → Nat → Nat × Nat
  | 0, last, next => (last, min next limit)
  | tries + 1, last, next =>
    if next < limit && isWithin next then stride isWithin limit tries next (2 * next + 1)
    else (last, min next limit)

/-- The first of some places that is not below. The search starts at a hint and strides away from
it before it halves what is left. -/
def gallop (isBelow : Nat → Bool) (count hint : Nat) : Nat :=
  if isBelow hint then
    let (last, next) := stride (fun distance => isBelow (hint + distance)) (count - hint) count 0 1
    boundary isBelow (hint + last + 1) (hint + next)
  else
    let (last, next) := stride (fun distance => !isBelow (hint - distance)) (hint + 1) count 0 1
    boundary isBelow (hint + 1 - next) (hint - last)

/-- How many items an item comes behind. -/
def placeBehind (item : α) (items : List α) (hint : Nat) : Nat :=
  let items := items.toArray
  gallop (fun place => !(items[place]?).any (isBefore item)) items.size hint

/-- How many items come before an item. -/
def placeBefore (item : α) (items : List α) (hint : Nat) : Nat :=
  let items := items.toArray
  gallop (fun place => (items[place]?).any (isBefore · item)) items.size hint

/-- The items that go on as the start does, each compared with the one ahead of it, and the rest. -/
def splitRun (falling : Bool) : α → List α → List α × List α
  | _, [] => ([], [])
  | last, item :: rest =>
    if isBefore item last = falling then
      let (run, rest) := splitRun falling item rest
      (item :: run, rest)
    else ([], item :: rest)

/-- The run that a list starts with, turned round if it falls, and the rest. -/
def firstRun : List α → List α × List α
  | [] => ([], [])
  | [item] => ([item], [])
  | first :: second :: rest =>
    let falling := isBefore second first
    let (run, rest) := splitRun isBefore falling first (second :: rest)
    (if falling then (first :: run).reverse else first :: run, rest)

/-- An item at its place behind all that it is not before, found by halving. -/
def insertHalving (sorted : List α) (item : α) : List α :=
  let items := sorted.toArray
  let place := boundary (fun place => !(items[place]?).any (isBefore item)) 0 items.size
  sorted.take place ++ item :: sorted.drop place

/-- A length between 32 and 64 of which so many items make up a power of two, or a little less. -/
def leastRun : Nat → Nat → Nat → Nat
  | 0, count, odd => count + odd
  | tries + 1, count, odd =>
    if count < 64 then count + odd else leastRun tries (count / 2) (max odd (count % 2))

/-- The first run, filled up to the least length by the items behind it, and the rest. -/
def filledRun (least : Nat) (items : List α) : List α × List α :=
  let (run, rest) := firstRun isBefore items
  let missing := least - run.length
  ((rest.take missing).foldl (insertHalving isBefore) run, rest.drop missing)

/-- A merge goes by single items until one side wins so often in a row that it strides. -/
inductive Pace where
  | single (leftWins rightWins : Nat)
  | striding
  deriving DecidableEq

/-- So many wins in a row make striding worth while. -/
def strideWins : Nat := 7

/-- A merge goes from the low ends of both sides or from their high ends; at a high end the sides
are turned round. -/
structure Merging (α : Type) where
  fromLow : Bool
  left : List α
  right : List α

namespace Merging

/-- One side is set aside during a merge. The merge ends as soon as the other one is used up, or at
most one item is left aside, which then comes last. -/
def isDone (merging : Merging α) : Bool :=
  if merging.fromLow then merging.right.isEmpty || merging.left.length ≤ 1
  else merging.left.isEmpty || merging.right.length ≤ 1

def remains (merging : Merging α) : List α :=
  if merging.fromLow then merging.right ++ merging.left else merging.left ++ merging.right

/-- How many items of the left side come first. -/
def leftShare (merging : Merging α) : Nat :=
  match merging.right with
  | [] => 0
  | item :: _ =>
    let count := merging.left.length
    if merging.fromLow then placeBehind isBefore item merging.left 0
    else count - placeBehind isBefore item merging.left.reverse (count - 1)

/-- How many items of the right side come first. -/
def rightShare (merging : Merging α) : Nat :=
  match merging.left with
  | [] => 0
  | item :: _ =>
    let count := merging.right.length
    if merging.fromLow then placeBefore isBefore item merging.right 0
    else count - placeBefore isBefore item merging.right.reverse (count - 1)

def takeLeft (merging : Merging α) (count : Nat) : List α × Merging α :=
  (merging.left.take count, { merging with left := merging.left.drop count })

def takeRight (merging : Merging α) (count : Nat) : List α × Merging α :=
  (merging.right.take count, { merging with right := merging.right.drop count })

/-- Whether the next single item comes from the left side. -/
def leftIsNext (merging : Merging α) : Bool :=
  match merging.left, merging.right with
  | a :: _, b :: _ => if merging.fromLow then !isBefore b a else isBefore b a
  | _, _ => true

/-- Goes on with what is left, unless the merge is done. -/
def andThen (taken : List α) (merging : Merging α) (patience : Nat)
    (next : Merging α → List α × Nat) : List α × Nat :=
  let (rest, patience) := if merging.isDone then (merging.remains, patience) else next merging
  (taken ++ rest, patience)

/-- Merges what is left, with so many items at most. The patience is how many wins in a row it takes
to stride; it grows as striding does not pay. -/
def merge : Nat → Pace → Nat → Merging α → List α × Nat
  | 0, _, patience, merging => (merging.remains, patience)
  | room + 1, .single leftWins rightWins, patience, merging =>
    if merging.leftIsNext isBefore then
      let (taken, merging) := merging.takeLeft 1
      andThen taken merging patience fun merging =>
        if patience ≤ leftWins + 1 then merge room .striding (patience + 1) merging
        else merge room (.single (leftWins + 1) 0) patience merging
    else
      let (taken, merging) := merging.takeRight 1
      andThen taken merging patience fun merging =>
        if patience ≤ rightWins + 1 then merge room .striding (patience + 1) merging
        else merge room (.single 0 (rightWins + 1)) patience merging
  | room + 1, .striding, patience, merging =>
    let patience := max 1 (patience - 1)
    let leftShare := merging.leftShare isBefore
    let (taken, merging) := merging.takeLeft leftShare
    andThen taken merging patience fun merging =>
      let (taken, merging) := merging.takeRight 1
      andThen taken merging patience fun merging =>
        let rightShare := merging.rightShare isBefore
        let (taken, merging) := merging.takeRight rightShare
        andThen taken merging patience fun merging =>
          let (taken, merging) := merging.takeLeft 1
          andThen taken merging patience fun merging =>
            if strideWins ≤ leftShare || strideWins ≤ rightShare then
              merge room .striding patience merging
            else merge room (.single 0 0) (patience + 1) merging

/-- Merges two sides, of which the first item is known to come from the one that is not set
aside. -/
def start (merging : Merging α) (patience : Nat) : List α × Nat :=
  let (taken, rest) := if merging.fromLow then merging.takeRight 1 else merging.takeLeft 1
  andThen taken rest patience
    (merge isBefore (merging.left.length + merging.right.length) (.single 0 0) patience)

end Merging

/-- Merges two sides, the shorter of which is set aside. -/
def mergeSides (left right : List α) (patience : Nat) : List α × Nat :=
  if left.length ≤ right.length then Merging.start isBefore ⟨true, left, right⟩ patience
  else
    let (merged, patience) :=
      Merging.start isBefore ⟨false, left.reverse, right.reverse⟩ patience
    (merged.reverse, patience)

/-- Merges two runs. What stands in its place already at the outer ends is left there. -/
def mergeRuns (left right : List α) (patience : Nat) : List α × Nat :=
  match right with
  | [] => (left, patience)
  | first :: _ =>
    let (before, inner) := left.splitAt (placeBehind isBefore first left 0)
    match inner.getLast? with
    | none => (left ++ right, patience)
    | some last =>
      let (upper, after) := right.splitAt (placeBefore isBefore last right (right.length - 1))
      if upper.isEmpty then (left ++ right, patience)
      else
        let (merged, patience) := mergeSides isBefore inner upper patience
        (before ++ merged ++ after, patience)

/-- A run, its start in the list, and the level at which it is merged with the one above it. -/
structure Run (α : Type) where
  start : Nat
  items : List α
  level : Nat := 0

/-- The first binary digit in which the middles of two neighbours differ, as parts of the whole.
Both are doubled. -/
def levelBetween (whole : Nat) : Nat → Nat → Nat → Nat
  | 0, _, _ => 0
  | tries + 1, left, right =>
    if whole ≤ left then 1 + levelBetween whole tries (2 * (left - whole)) (2 * (right - whole))
    else if whole ≤ right then 1
    else 1 + levelBetween whole tries (2 * left) (2 * right)

/-- Merges the uppermost runs as long as they are merged at a deeper level than the next run will
be. -/
def mergeAbove (level : Nat) : List (Run α) → Nat → List (Run α) × Nat
  | top :: below :: rest, patience =>
    if level < below.level then
      let (items, patience) := mergeRuns isBefore below.items top.items patience
      mergeAbove level ({ below with items } :: rest) patience
    else ({ top with level } :: below :: rest, patience)
  | [top], patience => ([{ top with level }], patience)
  | [], patience => ([], patience)
  termination_by runs => runs.length

/-- One more run on top of those that wait to be merged, the uppermost first. -/
def pushRun (whole : Nat) (runs : List (Run α)) (items : List α) (patience : Nat) :
    List (Run α) × Nat :=
  match runs with
  | [] => ([{ start := 0, items }], patience)
  | top :: _ =>
    let left := 2 * top.start + top.items.length
    let right := left + top.items.length + items.length
    let level := levelBetween whole (whole + 1) left right
    let (runs, patience) := mergeAbove isBefore level runs patience
    ({ start := top.start + top.items.length, items } :: runs, patience)

/-- All runs of a list, merged on the way as far as they are due. -/
def pushRuns (whole least : Nat) :
    Nat → List α → List (Run α) → Nat → List (Run α) × Nat
  | 0, _, runs, patience => (runs, patience)
  | room + 1, items, runs, patience =>
    if items.isEmpty then (runs, patience)
    else
      let (run, rest) := filledRun isBefore least items
      let (runs, patience) := pushRun isBefore whole runs run patience
      pushRuns whole least room rest runs patience

/-- Merges what is left from the top, but the two below it first if the lower of these is shorter
than the top. -/
def mergeAll : List (Run α) → Nat → List α
  | top :: middle :: low :: rest, patience =>
    if low.items.length < top.items.length then
      let (items, patience) := mergeRuns isBefore low.items middle.items patience
      mergeAll (top :: { low with items } :: rest) patience
    else
      let (items, patience) := mergeRuns isBefore middle.items top.items patience
      mergeAll ({ middle with items } :: low :: rest) patience
  | [top, low], patience => (mergeRuns isBefore low.items top.items patience).1
  | [top], _ => top.items
  | [], _ => []
  termination_by runs => runs.length

def sortedByRuns (items : List α) : List α :=
  let count := items.length
  let (runs, patience) :=
    pushRuns isBefore count (leastRun count count 0) count items [] strideWins
  mergeAll isBefore runs patience

theorem splitRun_append (falling : Bool) (last : α) (items : List α) :
    (splitRun isBefore falling last items).1 ++ (splitRun isBefore falling last items).2
      = items := by
  induction items generalizing last with
  | nil => rfl
  | cons item rest ih =>
    simp only [splitRun]
    split
    · simp [ih item]
    · simp

theorem perm_firstRun (items : List α) :
    ((firstRun isBefore items).1 ++ (firstRun isBefore items).2).Perm items := by
  match items with
  | [] => exact .refl _
  | [_] => exact .refl _
  | first :: second :: rest =>
    have h := splitRun_append isBefore (isBefore second first) first (second :: rest)
    simp only [firstRun]
    split
    · refine ((List.reverse_perm _).append_right _).trans ?_
      rw [List.cons_append, h]
    · rw [List.cons_append, h]

theorem perm_insertHalving (sorted : List α) (item : α) :
    (insertHalving isBefore sorted item).Perm (item :: sorted) := by
  simp only [insertHalving]
  refine List.perm_middle.trans ?_
  rw [List.take_append_drop]

theorem perm_foldl_insertHalving (sorted items : List α) :
    (items.foldl (insertHalving isBefore) sorted).Perm (sorted ++ items) := by
  induction items generalizing sorted with
  | nil => simp
  | cons item rest ih =>
    refine (ih _).trans (((perm_insertHalving isBefore sorted item).append_right rest).trans ?_)
    exact List.perm_middle.symm

theorem perm_filledRun (least : Nat) (items : List α) :
    ((filledRun isBefore least items).1 ++ (filledRun isBefore least items).2).Perm items := by
  simp only [filledRun]
  refine ((perm_foldl_insertHalving isBefore _ _).append_right _).trans ?_
  rw [List.append_assoc, List.take_append_drop]
  exact perm_firstRun isBefore items

namespace Merging

def items (merging : Merging α) : List α := merging.left ++ merging.right

theorem perm_remains (merging : Merging α) : merging.remains.Perm merging.items := by
  unfold remains items
  split
  · exact List.perm_append_comm
  · exact .refl _

theorem perm_takeLeft (merging : Merging α) (count : Nat) :
    ((merging.takeLeft count).1 ++ (merging.takeLeft count).2.items).Perm merging.items := by
  simp [takeLeft, items, ← List.append_assoc]

theorem perm_takeRight (merging : Merging α) (count : Nat) :
    ((merging.takeRight count).1 ++ (merging.takeRight count).2.items).Perm merging.items := by
  simp only [takeRight, items]
  refine List.perm_append_comm_assoc _ _ _ |>.trans ?_
  rw [List.take_append_drop]

theorem perm_andThen {taken whole : List α} {merging : Merging α} (patience : Nat)
    {next : Merging α → List α × Nat} (h : (taken ++ merging.items).Perm whole)
    (hn : (next merging).1.Perm merging.items) :
    (andThen taken merging patience next).1.Perm whole := by
  simp only [andThen]
  refine .trans (.append_left taken ?_) h
  split
  · exact perm_remains merging
  · exact hn

theorem perm_merge (room : Nat) (pace : Pace) (patience : Nat) (merging : Merging α) :
    (merge isBefore room pace patience merging).1.Perm merging.items := by
  induction room generalizing pace patience merging with
  | zero => exact perm_remains merging
  | succ room ih =>
    cases pace with
    | single leftWins rightWins =>
      rw [merge]
      split
      · refine perm_andThen patience (perm_takeLeft merging 1) ?_
        split <;> exact ih ..
      · refine perm_andThen patience (perm_takeRight merging 1) ?_
        split <;> exact ih ..
    | striding =>
      rw [merge]
      refine perm_andThen _ (perm_takeLeft ..) ?_
      refine perm_andThen _ (perm_takeRight ..) ?_
      refine perm_andThen _ (perm_takeRight ..) ?_
      refine perm_andThen _ (perm_takeLeft ..) ?_
      split <;> exact ih ..

theorem perm_start (merging : Merging α) (patience : Nat) :
    (start isBefore merging patience).1.Perm merging.items := by
  simp only [start]
  split
  · exact perm_andThen patience (perm_takeRight merging 1) (perm_merge ..)
  · exact perm_andThen patience (perm_takeLeft merging 1) (perm_merge ..)

end Merging

theorem perm_mergeSides (left right : List α) (patience : Nat) :
    (mergeSides isBefore left right patience).1.Perm (left ++ right) := by
  unfold mergeSides
  split
  · exact Merging.perm_start ..
  · refine (List.reverse_perm _).trans ((Merging.perm_start ..).trans ?_)
    exact (List.reverse_perm left).append (List.reverse_perm right)

theorem perm_mergeRuns (left right : List α) (patience : Nat) :
    (mergeRuns isBefore left right patience).1.Perm (left ++ right) := by
  unfold mergeRuns
  split
  · simp
  · simp only [List.splitAt_eq]
    split
    · exact .refl _
    · split
      · exact .refl _
      · refine (((perm_mergeSides ..).append_left _).append_right _).trans ?_
        rw [← List.append_assoc, List.take_append_drop, List.append_assoc, List.take_append_drop]

def itemsOf (runs : List (Run α)) : List α := runs.flatMap (·.items)

theorem perm_mergeAbove (level : Nat) (runs : List (Run α)) (patience : Nat) :
    (itemsOf (mergeAbove isBefore level runs patience).1).Perm (itemsOf runs) := by
  fun_induction mergeAbove isBefore level runs patience with
  | case1 top below rest patience _ items _ hm ih =>
    refine ih.trans ?_
    have h := perm_mergeRuns isBefore below.items top.items patience
    rw [hm] at h
    simp only [itemsOf, List.flatMap_cons, ← List.append_assoc]
    exact (h.trans List.perm_append_comm).append_right _
  | case2 => simp [itemsOf]
  | case3 => simp [itemsOf]
  | case4 => exact .refl _

theorem perm_pushRun (whole : Nat) (runs : List (Run α)) (items : List α) (patience : Nat) :
    (itemsOf (pushRun isBefore whole runs items patience).1).Perm (items ++ itemsOf runs) := by
  unfold pushRun
  split
  · simp [itemsOf]
  · simp only [itemsOf, List.flatMap_cons]
    exact (perm_mergeAbove ..).append_left _

theorem length_rest_lt (least : Nat) {items : List α} (h : items ≠ []) :
    (filledRun isBefore least items).2.length < items.length := by
  have hp : 0 < (firstRun isBefore items).1.length := by
    unfold firstRun
    split
    · contradiction
    · simp
    · simp only
      split <;> simp
  have hl := (perm_firstRun isBefore items).length_eq
  rw [List.length_append] at hl
  simp only [filledRun, List.length_drop]
  omega

theorem perm_pushRuns (whole least room : Nat) (items : List α) (runs : List (Run α))
    (patience : Nat) (h : items.length ≤ room) :
    (itemsOf (pushRuns isBefore whole least room items runs patience).1).Perm
      (items ++ itemsOf runs) := by
  induction room generalizing items runs patience with
  | zero => simp [pushRuns, List.eq_nil_of_length_eq_zero (Nat.le_zero.1 h)]
  | succ room ih =>
    rw [pushRuns]
    split
    · simp_all
    · rename_i hi
      have hne : items ≠ [] := by simpa using hi
      have hlt := length_rest_lt isBefore least hne
      refine (ih _ _ _ (Nat.le_of_lt_succ (Nat.lt_of_lt_of_le hlt h))).trans ?_
      refine ((perm_pushRun ..).append_left _).trans ?_
      rw [← List.append_assoc]
      refine (List.perm_append_comm.append_right _).trans ?_
      exact (perm_filledRun isBefore least items).append_right _

theorem perm_mergeAll (runs : List (Run α)) (patience : Nat) :
    (mergeAll isBefore runs patience).Perm (itemsOf runs) := by
  fun_induction mergeAll isBefore runs patience with
  | case1 top middle low rest patience _ items _ hm ih =>
    have h := perm_mergeRuns isBefore low.items middle.items patience
    rw [hm] at h
    refine ih.trans ?_
    simp only [itemsOf, List.flatMap_cons, ← List.append_assoc]
    refine .append_right _ ?_
    rw [List.append_assoc]
    exact .append_left _ (h.trans List.perm_append_comm)
  | case2 top middle low rest patience _ items _ hm ih =>
    have h := perm_mergeRuns isBefore middle.items top.items patience
    rw [hm] at h
    refine ih.trans ?_
    simp only [itemsOf, List.flatMap_cons, ← List.append_assoc]
    exact ((h.trans List.perm_append_comm).append_right _).append_right _
  | case3 top low patience =>
    refine (perm_mergeRuns ..).trans ?_
    simpa [itemsOf] using List.perm_append_comm
  | case4 => simp [itemsOf]
  | case5 => exact .refl _

theorem perm_sortedByRuns (items : List α) : (sortedByRuns isBefore items).Perm items := by
  refine (perm_mergeAll ..).trans ?_
  simpa [itemsOf] using
    perm_pushRuns isBefore items.length (leastRun items.length items.length 0) items.length items
      [] strideWins (Nat.le_refl _)

end TextGrammar.Sorting
