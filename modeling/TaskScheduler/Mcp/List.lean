import TaskScheduler.Domain.Views
import TaskScheduler.Lib.Pages
import TaskScheduler.Lib.Sorted
import TaskScheduler.Mcp.StatusMapping
import TaskScheduler.Python.FromIsoformat

/-! The tool `task.list.v1`, `app/mcp/handlers/list.py`: its checks, and how the pages of a status
filter agree with the unfiltered list, as far as the driver takes the range and the offset. -/

namespace TaskScheduler

open Lib

/-- The envelopes of `app/mcp/envelope.py`. -/
inductive Envelope (δ : Type)
  | success (data : δ)
  | error (code message : String) (field expected connectUrl : Option String)
  deriving DecidableEq, Repr

def Envelope.userInput {δ : Type} (message field : String) (expected : Option String) : Envelope δ :=
  .error "USER_INPUT" message (some field) expected none

/-- The arguments of `task.list.v1`, of the types that its schema admits. -/
structure ListArguments where
  status : Option String := none
  createdAtFrom : Option String := none
  createdAtTo : Option String := none
  page : Option Int := none
  pageSize : Option Int := none
  deriving DecidableEq, Repr

/-- An item of the answer, with the instant that its `created_at` writes. -/
structure ListItem where
  jobId : Nat
  action : String
  status : ExternalStatus
  createdAt : Int
  deriving DecidableEq, Repr

structure ListData where
  jobs : List ListItem
  total : Nat
  page : Int
  pageSize : Int
  deriving DecidableEq, Repr

/-- The calls into the standard library: `datetime.fromisoformat`, which reads nothing, a datetime
without a timezone, or an instant; and `repr` of a string. -/
structure Texts where
  fromIsoFormat : String → Option (Option Int)
  repr : String → String

/-- `_parse_tz_datetime`. -/
def parseTzDatetime (lib : Texts) (value fieldName : String) : Except (Envelope ListData) Int :=
  match lib.fromIsoFormat value with
  | none =>
    .error (.userInput (fieldName ++ " is not a valid ISO 8601 datetime") fieldName
      (some "ISO 8601 timezone-aware datetime"))
  | some none =>
    .error (.userInput (fieldName ++ " must include a timezone (e.g. '2026-01-01T00:00:00Z')")
      fieldName (some "ISO 8601 timezone-aware datetime"))
  | some (some instant) => .ok instant

/-- One bound of the range of creation times. -/
def parseBound (lib : Texts) (fieldName : String) :
    Option String → Except (Envelope ListData) (Option Int)
  | none => .ok none
  | some value => (parseTzDatetime lib value fieldName).map some

/-- The status that the list is filtered by. -/
def parseStatus (lib : Texts) :
    Option String → Except (Envelope ListData) (Option ExternalStatus)
  | none => .ok none
  | some text =>
    match ExternalStatus.parse text with
    | none =>
      .error (.userInput ("status " ++ lib.repr text ++ " is not a valid external status") "status"
        (some (", ".intercalate (ExternalStatus.values.map (·.1)))))
    | some s => .ok (some s)

/-- The checks of `handle_task_list`, and the filter that it asks `list_jobs` for. -/
def listFilter (lib : Texts) (args : ListArguments) : Except (Envelope ListData) ListFilter :=
  let page := args.page.getD 1
  let pageSize := args.pageSize.getD 20
  if page < 1 then .error (.userInput "page must be >= 1" "page" (some "1.."))
  else if pageSize < 1 then
    .error (.userInput "pageSize must be >= 1" "pageSize" (some "1..100"))
  else if pageSize > 100 then
    .error (.userInput "pageSize must be <= 100" "pageSize" (some "1..100"))
  else
    match parseStatus lib args.status with
    | .error e => .error e
    | .ok status =>
      match parseBound lib "created_at_from" args.createdAtFrom with
      | .error e => .error e
      | .ok createdAtFrom =>
        match parseBound lib "created_at_to" args.createdAtTo with
        | .error e => .error e
        | .ok createdAtTo =>
          .ok ⟨status.map toInternalSet, (status.map toJobStates).getD [], createdAtFrom,
            createdAtTo, page, pageSize⟩

/-- How the answer shows an item. -/
def JobListItem.render (item : JobListItem) : ListItem :=
  ⟨item.jobId, item.action, toExternalJobStatus item.jobState item.latestRunStatus, item.createdAt⟩

/-- `handle_task_list`, where the two statements of `list_jobs` see `t` and `t'`. -/
def handleTaskList (lib : Texts) (t t' : Tables) (userId : String) (args : ListArguments) :
    Envelope ListData :=
  match listFilter lib args with
  | .error e => e
  | .ok f =>
    match listJobs t t' userId f with
    | none => .error "INTERNAL" "An unexpected error occurred." none none none
    | some paged =>
      .success ⟨paged.items.map JobListItem.render, paged.total, paged.page, paged.pageSize⟩

/-! ### Pages of a list -/

section Agree

variable {t : Tables} {userId : String}

/-- The item of a job, and what it shows. -/
def listItem (t : Tables) (j : Job) : ListItem :=
  ⟨j.jobId, j.action, toExternalJobStatus j.state (latestRunStatus t j), j.createdAt⟩

/-- The jobs of a user in a range of creation times, newest first. -/
def listed (t : Tables) (userId : String) (from_ to_ : Option Int) : List Job :=
  (t.jobs.filter (baseWhere t userId ⟨none, [], from_, to_, 1, 1⟩)).insertionSort
    fun a b => b.createdAt ≤ a.createdAt

/-- The filter of `list_jobs` by an external status is the status that the list renders. -/
theorem baseWhere_status (s : ExternalStatus) (from_ to_ : Option Int) (page pageSize : Int)
    (j : Job) : baseWhere t userId ⟨some (toInternalSet s), toJobStates s, from_, to_, page, pageSize⟩ j =
      (baseWhere t userId ⟨none, [], from_, to_, 1, 1⟩ j && (listItem t j).status == s) := by
  simp only [baseWhere, Option.all_some, Option.all_none, Bool.and_true, listItem,
    toExternalJobStatus]
  congr 1
  cases latestRunStatus t j with
  | none => simp only [mem_toJobStates, beq_eq_decide]
  | some status => simp only [mem_toInternalSet, beq_eq_decide]

instance : Std.Total fun a b : Job => b.createdAt ≤ a.createdAt :=
  ⟨fun a b => le_total b.createdAt a.createdAt⟩

instance : IsTrans Job fun a b => b.createdAt ≤ a.createdAt :=
  ⟨fun _ _ _ hab hbc => le_trans hbc hab⟩

/-- The rows of a page, as the handler renders them. -/
theorem pageJobs_render {f : ListFilter} {p k : Nat} {l : List Job}
    (hl : (t.jobs.filter (baseWhere t userId f)).insertionSort (fun a b => b.createdAt ≤ a.createdAt) = l)
    (hpage : f.page = k + 1) (hsize : f.pageSize = p) :
    (pageJobs t userId f).map JobListItem.render = pageOf p (l.map (listItem t)) k := by
  have hoffset : ((f.page - 1) * f.pageSize).toNat = k * p := by
    rw [hpage, hsize, Int.add_sub_cancel, ← Int.natCast_mul, Int.toNat_natCast]
  rw [pageJobs, hl, hoffset, hsize, Int.toNat_natCast, List.map_map, ← map_pageOf, pageOf]
  rfl

/-- What the handler answers to a page that is asked for with valid arguments. -/
theorem handleTaskList_page {lib : Texts} {args : ListArguments} {f : ListFilter} {p k : Nat}
    {l : List Job} (hf : listFilter lib args = .ok f) (hrange : f.inRange = true)
    (hl : (t.jobs.filter (baseWhere t userId f)).insertionSort (fun a b => b.createdAt ≤ a.createdAt) = l)
    (hpage : f.page = k + 1) (hsize : f.pageSize = p) :
    handleTaskList lib t t userId args =
      .success ⟨pageOf p (l.map (listItem t)) k, l.length, k + 1, p⟩ := by
  have htotal : countJobs t userId f = l.length := by
    rw [← hl, List.length_insertionSort, countJobs]
  have hjobs : listJobs t t userId f =
      some ⟨pageJobs t userId f, countJobs t userId f, f.page, f.pageSize⟩ := if_pos hrange
  rw [handleTaskList, hf]
  simp only [hjobs, pageJobs_render hl hpage hsize, htotal, hpage, hsize]

/-- What the driver refuses is an internal error. -/
theorem handleTaskList_internal {lib : Texts} {args : ListArguments} {f : ListFilter}
    (hf : listFilter lib args = .ok f) (hrange : f.inRange = false) :
    handleTaskList lib t t userId args =
      .error "INTERNAL" "An unexpected error occurred." none none none := by
  have hjobs : listJobs t t userId f = none := if_neg (by rw [hrange]; decide)
  rw [handleTaskList, hf]
  simp only [hjobs]

/-- Page `k + 1` of the list, in pages of `p` jobs. -/
def listPage (lib : Texts) (t : Tables) (userId : String) (createdAtFrom createdAtTo : Option String)
    (p : Nat) (status : Option ExternalStatus) (k : Nat) : Envelope ListData :=
  handleTaskList lib t t userId
    ⟨status.map (·.text), createdAtFrom, createdAtTo, some (k + 1), some p⟩

theorem listFilter_page {lib : Texts} {createdAtFrom createdAtTo : Option String}
    {from_ to_ : Option Int} (hfrom : parseBound lib "created_at_from" createdAtFrom = .ok from_)
    (hto : parseBound lib "created_at_to" createdAtTo = .ok to_) {p : Nat} (hp : 1 ≤ p)
    (hp' : p ≤ 100) (status : Option ExternalStatus) (k : Nat) :
    listFilter lib ⟨status.map (·.text), createdAtFrom, createdAtTo, some (k + 1), some p⟩ =
      .ok ⟨status.map toInternalSet, (status.map toJobStates).getD [], from_, to_, k + 1, p⟩ := by
  have hstatus : parseStatus lib (status.map (·.text)) = .ok status := by
    cases status with
    | none => rfl
    | some s => simp only [Option.map_some, parseStatus, ExternalStatus.parse_text]
  have hpage : ¬(k : Int) + 1 < 1 := by omega
  have hlow : ¬(p : Int) < 1 := by omega
  have hhigh : ¬(p : Int) > 100 := by omega
  simp only [listFilter, Option.getD_some, if_neg hpage, if_neg hlow, if_neg hhigh, hstatus, hfrom,
    hto]

/-- Jobs with creation times of their own have one order. -/
theorem listed_pairwise (hcreated : ((t.jobs.filter fun j => j.userId == userId).map
    (·.createdAt)).Nodup) (from_ to_ : Option Int) :
    (listed t userId from_ to_).Pairwise fun a b => b.createdAt < a.createdAt := by
  have hsub : ((t.jobs.filter (baseWhere t userId ⟨none, [], from_, to_, 1, 1⟩)).map
      (·.createdAt)).Nodup := by
    refine hcreated.sublist (List.Sublist.map _ ?_)
    refine List.monotone_filter_right _ fun j hj => ?_
    simp only [baseWhere, Bool.and_eq_true] at hj
    exact hj.1.1.1
  have hperm := List.perm_insertionSort (fun a b : Job => b.createdAt ≤ a.createdAt)
    (t.jobs.filter (baseWhere t userId ⟨none, [], from_, to_, 1, 1⟩))
  have hne : (listed t userId from_ to_).Pairwise fun a b => a.createdAt ≠ b.createdAt :=
    List.pairwise_map.mp ((hperm.map Job.createdAt).nodup_iff.mpr hsub)
  refine (List.pairwise_insertionSort _ _).imp₂ (fun a b hle hne => ?_) hne
  exact lt_of_le_of_ne hle (Ne.symm hne)

/-- The filtered list is the listed jobs that render the status. -/
theorem filtered_eq (hcreated : ((t.jobs.filter fun j => j.userId == userId).map
    (·.createdAt)).Nodup) (s : ExternalStatus) (from_ to_ : Option Int) (page pageSize : Int) :
    (t.jobs.filter (baseWhere t userId
      ⟨some (toInternalSet s), toJobStates s, from_, to_, page, pageSize⟩)).insertionSort
        (fun a b => b.createdAt ≤ a.createdAt) =
      (listed t userId from_ to_).filter fun j => (listItem t j).status == s := by
  have hfilter : t.jobs.filter (baseWhere t userId
      ⟨some (toInternalSet s), toJobStates s, from_, to_, page, pageSize⟩) =
        (t.jobs.filter (baseWhere t userId ⟨none, [], from_, to_, 1, 1⟩)).filter
          fun j => (listItem t j).status == s := by
    rw [List.filter_filter]
    refine List.filter_congr fun j _ => ?_
    rw [baseWhere_status, Bool.and_comm]
  rw [hfilter]
  refine insertionSort_filter (fun a ha b hb hab hba => ?_) _
  have hmine : ∀ j ∈ t.jobs.filter (baseWhere t userId ⟨none, [], from_, to_, 1, 1⟩),
      j ∈ t.jobs.filter fun j => j.userId == userId := by
    intro j hj
    obtain ⟨hj, hwhere⟩ := List.mem_filter.mp hj
    simp only [baseWhere, Bool.and_eq_true] at hwhere
    exact List.mem_filter.mpr ⟨hj, hwhere.1.1.1⟩
  exact List.inj_on_of_nodup_map hcreated (hmine a ha) (hmine b hb) (le_antisymm hba hab)

/-- A page is in range just when the driver takes both bounds and its offset. -/
theorem inRange_page {f : ListFilter} {p k : Nat} (hp' : p ≤ 100) (hpage : f.page = k + 1)
    (hsize : f.pageSize = p) : f.inRange = true ↔
      f.createdAtFrom.all inUtcYears = true ∧ f.createdAtTo.all inUtcYears = true ∧
        k * p < 2 ^ 63 := by
  have hoffset : (f.page - 1) * f.pageSize = ((k * p : Nat) : Int) := by
    rw [hpage, hsize, Int.add_sub_cancel, Int.natCast_mul]
  have htakes : ∀ n : Nat, takesRows n = true ↔ n < 2 ^ 63 := by
    intro n
    simp only [takesRows, Bool.and_eq_true, decide_eq_true_eq]
    omega
  rw [ListFilter.inRange, hoffset, hsize]
  simp only [Bool.and_eq_true, htakes]
  constructor
  · rintro ⟨⟨⟨hfrom, hto⟩, hk⟩, -⟩
    exact ⟨hfrom, hto, hk⟩
  · rintro ⟨hfrom, hto, hk⟩
    exact ⟨⟨⟨hfrom, hto⟩, hk⟩, by omega⟩

/-- The pages 1 to `n` of a status filter, in pages of `p` jobs, one after the other, are the jobs
that the unfiltered list renders with the status, each once, newest first; every page with another
one after it is full, and the total is their number on every page. -/
def PagesAgree (lib : Texts) (t : Tables) (userId : String)
    (createdAtFrom createdAtTo : Option String) (s : ExternalStatus) (p n : Nat) : Prop :=
  ∃ all matching : List ListItem,
    (∀ k < n, listPage lib t userId createdAtFrom createdAtTo p none k =
      .success ⟨pageOf p all k, all.length, k + 1, p⟩) ∧
    (∀ k < n, listPage lib t userId createdAtFrom createdAtTo p (some s) k =
      .success ⟨pageOf p matching k, matching.length, k + 1, p⟩) ∧
    (all.length ≤ n * p → (List.range n).flatMap (pageOf p all) = all) ∧
    (matching.length ≤ n * p → (List.range n).flatMap (pageOf p matching) = matching) ∧
    matching = all.filter (fun item => item.status == s) ∧
    all.Pairwise (fun a b => b.createdAt < a.createdAt) ∧
    ∀ k, pageOf p matching (k + 1) ≠ [] → (pageOf p matching k).length = p

/-- The pages agree just when the driver takes the bounds of the range, which lie in the years of
UTC, and the offset of the last page.  The jobs are those of the user in the range, and the status
of a job with runs is the one of its latest run, whichever runs tie in a sort. -/
theorem list_pages_agree (lib : Texts)
    (hcreated : ((t.jobs.filter fun j => j.userId == userId).map (·.createdAt)).Nodup)
    (hruns : ∀ j ∈ t.jobs, j.userId = userId →
      ((t.runs.filter fun r => r.jobId == j.jobId).map (·.latestKey)).Nodup)
    {createdAtFrom createdAtTo : Option String} {from_ to_ : Option Int}
    (hfrom : parseBound lib "created_at_from" createdAtFrom = .ok from_)
    (hto : parseBound lib "created_at_to" createdAtTo = .ok to_) (s : ExternalStatus) {p n : Nat}
    (hp : 1 ≤ p) (hp' : p ≤ 100) (hn : 1 ≤ n) :
    (PagesAgree lib t userId createdAtFrom createdAtTo s p n ↔
      from_.all inUtcYears = true ∧ to_.all inUtcYears = true ∧ (n - 1) * p < 2 ^ 63) ∧
    (PagesAgree lib t userId createdAtFrom createdAtTo s p n →
      ∀ k < n, listPage lib t userId createdAtFrom createdAtTo p none k =
        .success ⟨pageOf p ((listed t userId from_ to_).map (listItem t)) k,
          (listed t userId from_ to_).length, k + 1, p⟩) ∧
    ∀ j ∈ t.jobs, j.userId = userId → ∀ r ∈ t.runs, r.jobId = j.jobId →
      (∀ x ∈ t.runs, x.jobId = j.jobId → x.latestKey ≤ r.latestKey) →
      (listItem t j).status = toExternal r.status := by
  have hunfiltered : ∀ k, from_.all inUtcYears = true ∧ to_.all inUtcYears = true ∧
      k * p < 2 ^ 63 → listPage lib t userId createdAtFrom createdAtTo p none k =
        .success ⟨pageOf p ((listed t userId from_ to_).map (listItem t)) k,
          (listed t userId from_ to_).length, k + 1, p⟩ := by
    intro k hrange
    exact handleTaskList_page (listFilter_page hfrom hto hp hp' none k)
      ((inRange_page hp' rfl rfl).mpr hrange) rfl rfl rfl
  have hiff : PagesAgree lib t userId createdAtFrom createdAtTo s p n ↔
      from_.all inUtcYears = true ∧ to_.all inUtcYears = true ∧ (n - 1) * p < 2 ^ 63 := by
    constructor
    · rintro ⟨all, matching, hall, -⟩
      -- the last page is answered, so it is in range
      by_contra hrange
      have hlast := hall (n - 1) (by omega)
      rw [listPage, handleTaskList_internal (listFilter_page hfrom hto hp hp' none (n - 1))
        (Bool.eq_false_iff.mpr (mt (inRange_page hp' rfl rfl).mp hrange))] at hlast
      cases hlast
    · rintro ⟨hlow, hhigh, hoffset⟩
      have hrange : ∀ k < n, k * p < 2 ^ 63 := fun k hk =>
        (Nat.mul_le_mul_right p (by omega : k ≤ n - 1)).trans_lt hoffset
      have hmatching : ((listed t userId from_ to_).filter fun j => (listItem t j).status == s).map
          (listItem t) =
            ((listed t userId from_ to_).map (listItem t)).filter fun i => i.status == s := by
        rw [List.filter_map]
        rfl
      have hconcat : ∀ l : List ListItem, l.length ≤ n * p →
          (List.range n).flatMap (pageOf p l) = l := by
        intro l hlength
        rw [flatMap_pageOf, List.take_of_length_le hlength]
      refine ⟨(listed t userId from_ to_).map (listItem t), _, fun k hk => ?_, fun k hk => ?_,
        hconcat _, hconcat _, rfl, ?_, fun k => length_pageOf_of_next⟩
      · rw [List.length_map]
        exact hunfiltered k ⟨hlow, hhigh, hrange k hk⟩
      · rw [← hmatching, List.length_map]
        exact handleTaskList_page (listFilter_page hfrom hto hp hp' (some s) k)
          ((inRange_page hp' rfl rfl).mpr ⟨hlow, hhigh, hrange k hk⟩)
          (filtered_eq hcreated s from_ to_ _ _) rfl rfl
      · exact List.pairwise_map.mpr (listed_pairwise hcreated from_ to_)
  refine ⟨hiff, fun h k hk => ?_, fun j hj howner r hr hjob hmax => ?_⟩
  · obtain ⟨hlow, hhigh, hoffset⟩ := hiff.mp h
    exact hunfiltered k ⟨hlow, hhigh,
      (Nat.mul_le_mul_right p (by omega : k ≤ n - 1)).trans_lt hoffset⟩
  · have hlatest : latestRun (t.runs.filter fun r => r.jobId == j.jobId) = some r := by
      refine latestRun_eq (hruns j hj howner) (List.mem_filter.mpr ⟨hr, by simpa using hjob⟩) ?_
      intro x hx
      obtain ⟨hx, hxj⟩ := List.mem_filter.mp hx
      exact hmax x hx (by simpa using hxj)
    simp only [listItem, latestRunStatus, hlatest, Option.map_some, toExternalJobStatus]

end Agree

/-- A job that has run, and a chained one that waits for its trigger. -/
def Tables.ranAndWaiting : Tables where
  jobs := [⟨1, "alice", "echo", .oneShot, some 0, none, "UTC", none, none, none, none, .completed, 10, 10⟩,
    ⟨2, "alice", "echo", .oneShot, some 0, none, "UTC", none, some 1, some .succeeded, none, .active,
      20, 20⟩]
  runs := [⟨1, 1, "alice", 0, .succeeded, none, none, none, none, some 11, some 12, none, 10, 12⟩]

/-- The calls of the handler, with the texts that `repr` writes between plain quotes. -/
def Texts.plain : Texts where
  fromIsoFormat value :=
    (fromisoformat (.ofString value)).map fun dt => dt.utcoffset.map fun _ => dt.instant
  repr s := "'" ++ s ++ "'"

/-- Two pages of the filter by `scheduled` agree: the job without a run is found. -/
theorem ranAndWaiting_agrees :
    PagesAgree .plain .ranAndWaiting "alice" none none .scheduled 1 2 :=
  (@list_pages_agree .ranAndWaiting "alice" .plain (by decide) (by decide) none none none none rfl rfl
    .scheduled 1 2 (by decide) (by decide) (by decide)).1.mpr ⟨rfl, rfl, by decide⟩

/-- A range that ends in the last five hours of the year 9999 in New York is an internal error. -/
theorem lateBound_internal : ¬PagesAgree .plain .ranAndWaiting "alice" none
    (some "9999-12-31T23:59:59-05:00") .scheduled 1 1 := by
  rintro ⟨all, matching, hall, -⟩
  have hinternal : listPage .plain .ranAndWaiting "alice" none (some "9999-12-31T23:59:59-05:00") 1
      none 0 = .error "INTERNAL" "An unexpected error occurred." none none none := by
    decide +kernel
  have hpage := (hall 0 (by decide)).symm.trans hinternal
  cases hpage

end TaskScheduler
