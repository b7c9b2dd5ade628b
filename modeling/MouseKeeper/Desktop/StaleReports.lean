import MouseKeeper.Contracts.FileRequests
import MouseKeeper.Desktop.Delivery
import MouseKeeper.Desktop.StalePayload
import MouseKeeper.Storage.Tables

/-!
When no report that cached files are stale is lost on the way through the outbox.

Reports are queued by room and path, and a newer report of a room and a path supersedes the
pending one. A report on a removed path covers all below it, and one on a changed path that path
alone. The digest is a parameter.
-/

namespace MouseKeeper.Desktop.StaleReports

open Contracts (segments markCachedFilesStaleSchema)
open MouseKeeper.Machine
open Outbox
open Storage (Availability Freshness)

/-! ### The desktop -/

def stalePrefix : String := "smart_cache_stale:"

/-- Whether the path passes `validate_stale_source_path`. -/
def validateStaleSourcePath (path : String) : Bool :=
  path ≠ "" && path.utf8ByteSize ≤ 1024 && '\x00' ∉ path.toList && path.toList.head? ≠ some '/' &&
    path.toList.head? ≠ some '\\' && ¬ ['/', '/'] <:+: path.toList &&
    ¬ ['\\', '\\'] <:+: path.toList &&
    (segments path).all fun segment => segment ≠ [] && segment ≠ ['.'] && segment ≠ ['.', '.']

/-- `{:039}`. -/
def padded (nanos : ℕ) : String :=
  String.ofList (List.replicate (39 - (Nat.toDigits 10 nanos).length) '0' ++ Nat.toDigits 10 nanos)

/-- A report as it is queued. -/
structure Queued where
  kind : String
  key : String
  payload : SmartCacheStalePayload
  deriving DecidableEq

variable (sha256 : String → String)

/-- What `enqueue_smart_cache_stale` queues at a clock reading. -/
def queued (roomId : String) (sourceRelativePath : Option String) (reason : String)
    (unixNanos : ℕ) : Option Queued :=
  let valid : Bool := match sourceRelativePath, reason with
    | some path, "SOURCE_CHANGED" | some path, "SOURCE_REMOVED" => validateStaleSourcePath path
    | none, "REINDEXED" => true
    | _, _ => false
  if FileEngine.trim roomId ≠ "" ∧ valid then
    let pathScope := sourceRelativePath.getD "*"
    some
      { kind := stalePrefix ++ sha256 (roomId ++ "\x00" ++ pathScope)
        key := padded unixNanos ++ "-" ++ reason
        payload := ⟨roomId, sourceRelativePath, reason⟩ }
  else none

/-- A report with the key that it is delivered under. -/
structure Report where
  idempotencyKey : String
  payload : SmartCacheStalePayload

def isStale (kind : String) : Bool := stalePrefix.toList.isPrefixOf kind.toList

/-- The report that a dispatch reads from an item. -/
def report (x : Row) : Option Report :=
  if isStale x.kind then (decode x.payload).map fun p => ⟨x.key, p⟩ else none

def validateOpaqueValue (value : String) (maxLength : ℕ) : Bool :=
  value ≠ "" && value.utf8ByteSize ≤ maxLength &&
    value.toList.all fun c => c.isAlphanum || c = '-' || c = '_'

def validateRelativePath (path : String) : Bool :=
  path ≠ "" && path.utf8ByteSize ≤ 1024 && path.toList.head? ≠ some '/' &&
    path.toList.head? ≠ some '\\' && '\x00' ∉ path.toList && ':' ∉ path.toList &&
    (segments path).all fun segment => segment ≠ [] && segment ≠ ['.'] && segment ≠ ['.', '.']

/-- Whether `mark_smart_cache_stale` sends the report. -/
def Report.sent (r : Report) : Bool :=
  validateOpaqueValue r.idempotencyKey 128 && validateOpaqueValue r.payload.roomId 200 &&
    match r.payload.sourceRelativePath, r.payload.reason with
    | some path, "SOURCE_CHANGED" | some path, "SOURCE_REMOVED" => validateRelativePath path
    | none, "REINDEXED" => true
    | _, _ => false

/-! ### The server -/

structure CachedFile where
  id : ℕ
  roomId : String
  sourceRelativePath : String
  availabilityStatus : Availability
  freshnessStatus : Freshness
  deriving DecidableEq, Repr

/-- The path in the scope of a report. -/
def SmartCacheStalePayload.inScope (p : SmartCacheStalePayload) (path : String) : Bool :=
  match p.sourceRelativePath with
  | none => true
  | some source =>
    if p.reason = "SOURCE_REMOVED" then
      path = source || (source ++ "/").toList.isPrefixOf path.toList
    else path = source

variable (served : String → Bool)

/-- Whether the server takes the report; `served` are the active rooms on the device. -/
def Report.accepted (r : Report) : Bool :=
  r.sent && 8 ≤ Contracts.length r.idempotencyKey && Contracts.length r.idempotencyKey ≤ 128 &&
    markCachedFilesStaleSchema r.payload.sourceRelativePath r.payload.reason &&
    served r.payload.roomId

/-- The available file is one that the report marks. -/
def Report.covers (r : Report) (f : CachedFile) : Bool :=
  r.accepted served && f.roomId = r.payload.roomId && f.availabilityStatus = .available &&
    r.payload.inScope f.sourceRelativePath

/-- `markStale`, with the checks before it. -/
def markStale (files : List CachedFile) (r : Report) : List CachedFile :=
  files.map fun f =>
    if r.covers served f ∧ f.freshnessStatus ≠ .stale then { f with freshnessStatus := .stale } else f

/-- The files after the delivery of the reports. -/
def deliver (files : List CachedFile) (reports : List Report) : List CachedFile :=
  reports.foldl (markStale served) files

/-! ### Runs -/

/-- The outbox, with the reports that have been made. -/
structure Course where
  world : World
  made : List Report

def Course.initial : Course := ⟨.initial, []⟩

inductive Event where
  | stale (roomId : String) (sourceRelativePath : Option String) (reason : String)
    (unixNanos : ℕ)
  | outbox (l : Label)

/-- The other producers queue no stale report. -/
def Label.foreign : Label → Bool
  | .enqueueReplacing kind _ _ => !isStale kind
  | _ => true

def Course.step (c : Course) : Event → Option Course
  | .stale roomId sourceRelativePath reason unixNanos =>
    match queued sha256 roomId sourceRelativePath reason unixNanos with
    | some q => some
        { world :=
            { c.world with store := c.world.store.enqueueReplacing q.kind q.key q.payload.toString }
          made := c.made ++ [⟨q.key, q.payload⟩] }
    | none => some c
  | .outbox l =>
    if Label.foreign l then (c.world.step plainKind l).map fun w => { c with world := w } else none

/-- Some pending report covers the file. -/
def Course.Awaits (c : Course) (f : CachedFile) : Prop :=
  ∃ x ∈ c.world.store.rows, x.state = .pending ∧ ∃ r ∈ report x, r.covers served f

/-- No report is pending. -/
def Course.Drained (c : Course) : Prop :=
  ∀ x ∈ c.world.store.rows, x.state = .pending → isStale x.kind = false

structure NeverLost (es : List Event) : Prop where
  /-- What the reports would have marked one by one is marked once the outbox is drained. -/
  drained : ∀ c, run (Course.step sha256) .initial es = some c → c.Drained →
    ∀ files, ∀ f ∈ deliver served files c.made, f.freshnessStatus = .stale →
      ∃ g ∈ deliver served files (c.world.delivered.filterMap report),
        g.id = f.id ∧ g.freshnessStatus = .stale
  /-- A new report covers, with what stays pending, all that was covered before. -/
  superseding : ∀ es' roomId path reason nanos es'',
    es = es' ++ .stale roomId path reason nanos :: es'' → ∀ c c',
      run (Course.step sha256) .initial es' = some c →
      c.step sha256 (.stale roomId path reason nanos) = some c' →
      ∀ f, c.Awaits served f → c'.Awaits served f

/-! ### The condition -/

/-- Every file that the one covers is covered by the other. -/
def Report.Within (r s : Report) : Prop := ∀ f, r.covers served f → s.covers served f

/-- A report covers what the pending ones cover that it supersedes; where the key of a row of its
kind is as large as its own, an earlier report covers what it covers. A report that the server
takes is given up only when it has reached the server. -/
def Course.Kept (c : Course) : Event → Prop
  | .stale roomId sourceRelativePath reason unixNanos =>
    ∀ q ∈ queued sha256 roomId sourceRelativePath reason unixNanos,
      (∀ x ∈ c.world.store.rows, x.kind = q.kind → x.state = .pending → x.key < q.key →
        ∀ r ∈ report x, r.Within served ⟨q.key, q.payload⟩) ∧
      ((∃ x ∈ c.world.store.rows, x.kind = q.kind ∧ q.key ≤ x.key) →
        ∃ r ∈ c.made, Report.Within served ⟨q.key, q.payload⟩ r)
  | .outbox (.dispatch i reached (.terminal _)) =>
    ∀ x rest, c.world.flushes i = some ⟨none, x :: rest⟩ →
      ∀ r ∈ report x, r.accepted served → reached = true
  | _ => True

section Within

variable {served : String → Bool} {r s : Report} {path : String}

lemma inScope_removed {p : SmartCacheStalePayload} (hp : p.sourceRelativePath = some path)
    (hr : p.reason = "SOURCE_REMOVED") (file : String) : p.inScope file =
      (decide (file = path) || (path ++ "/").toList.isPrefixOf file.toList) := by
  simp only [SmartCacheStalePayload.inScope, hp]
  rw [if_pos hr]

lemma inScope_changed {p : SmartCacheStalePayload} (hp : p.sourceRelativePath = some path)
    (hr : p.reason ≠ "SOURCE_REMOVED") (file : String) : p.inScope file = decide (file = path) := by
  simp only [SmartCacheStalePayload.inScope, hp]
  rw [if_neg hr]

/-- Of two reports on a path, one covers the files of the other unless only the other is on a
removal. -/
lemma within_iff (hroom : s.payload.roomId = r.payload.roomId)
    (hr : r.payload.sourceRelativePath = some path) (hs : s.payload.sourceRelativePath = some path)
    (har : r.accepted served) (has : s.accepted served) : r.Within served s ↔
      (r.payload.reason = "SOURCE_REMOVED" → s.payload.reason = "SOURCE_REMOVED") := by
  constructor
  · intro h hrem
    by_contra hn
    -- a file below the path
    have ha : (path ++ "/" ++ "a").toList = (path ++ "/").toList ++ "a".toList :=
      String.toList_append
    have hp : (path ++ "/").toList <+: (path ++ "/" ++ "a").toList := ha ▸ List.prefix_append _ _
    have hc := h ⟨0, r.payload.roomId, path ++ "/" ++ "a", .available, .verifiedCurrent⟩ (by
      simp only [Report.covers, har, inScope_removed hr hrem, Bool.and_eq_true, decide_true,
        and_self, true_and, Bool.or_eq_true]
      exact .inr (List.isPrefixOf_iff_prefix.mpr hp))
    simp only [Report.covers, inScope_changed hs hn, Bool.and_eq_true, decide_eq_true_eq] at hc
    have hl := congrArg (·.toList.length) hc.2
    have h1 : "/".toList.length = 1 := rfl
    simp only [String.toList_append, List.length_append, h1] at hl
    omega
  · intro h f hf
    simp only [Report.covers, Bool.and_eq_true, decide_eq_true_eq] at hf ⊢
    refine ⟨⟨⟨has, hf.1.1.2.trans hroom.symm⟩, hf.1.2⟩, ?_⟩
    by_cases hrem : r.payload.reason = "SOURCE_REMOVED"
    · rw [inScope_removed hs (h hrem)]
      rw [inScope_removed hr hrem] at hf
      exact hf.2
    · have hfile := hf.2
      rw [inScope_changed hr hrem, decide_eq_true_eq] at hfile
      by_cases hsrem : s.payload.reason = "SOURCE_REMOVED"
      · rw [inScope_removed hs hsrem, hfile]
        simp
      · rw [inScope_changed hs hsrem, hfile]
        simp

end Within

/-! ### What is delivered -/

section Deliver

variable {served : String → Bool} {f : CachedFile} {files : List CachedFile}

lemma covers_mark (r s : Report) :
    s.covers served (if r.covers served f ∧ f.freshnessStatus ≠ .stale
      then { f with freshnessStatus := .stale } else f) = s.covers served f := by
  split
  · rfl
  · rfl

/-- A file is stale after the deliveries when it was before or a report covers it. -/
lemma deliver_eq (reports : List Report) : deliver served files reports = files.map fun f =>
    if reports.any (·.covers served f) ∧ f.freshnessStatus ≠ .stale
    then { f with freshnessStatus := .stale } else f := by
  induction reports generalizing files with
  | nil => simp [deliver]
  | cons r reports ih =>
    rw [deliver, List.foldl_cons, ← deliver, ih, markStale, List.map_map]
    refine List.map_congr_left fun f _ => ?_
    simp only [Function.comp_apply, covers_mark, List.any_cons, Bool.or_eq_true]
    by_cases hs : f.freshnessStatus = .stale
    · simp [hs]
    · by_cases hr : r.covers served f
      · simp [hs, hr]
      · simp [hs, hr]

/-- More of the files are covered, more are stale. -/
lemma deliver_mono {made received : List Report}
    (h : ∀ r ∈ made, ∀ f, r.covers served f → ∃ s ∈ received, s.covers served f)
    (hf : f ∈ deliver served files made) (hs : f.freshnessStatus = .stale) :
    ∃ g ∈ deliver served files received, g.id = f.id ∧ g.freshnessStatus = .stale := by
  rw [deliver_eq] at hf ⊢
  obtain ⟨a, ha, rfl⟩ := List.mem_map.mp hf
  refine ⟨_, List.mem_map_of_mem ha, ?_, ?_⟩
  · split <;> split <;> rfl
  · by_cases hst : a.freshnessStatus = .stale
    · simp [hst]
    · have hany : made.any (·.covers served a) := by
        by_contra hn
        rw [if_neg fun hc => hn hc.1] at hs
        exact hst hs
      obtain ⟨r, hr, hc⟩ := List.any_eq_true.mp hany
      rw [if_pos ⟨List.any_eq_true.mpr (h r hr a hc), hst⟩]

end Deliver

/-! ### What is covered -/

section Covered

variable {sha256 : String → String} {served : String → Bool} {f : CachedFile}

/-- The item is a report that covers the file. -/
def Covers (served : String → Bool) (x : Row) (f : CachedFile) : Prop :=
  ∃ r ∈ report x, r.covers served f

def Reached (served : String → Bool) (w : World) (f : CachedFile) : Prop :=
  ∃ x ∈ w.delivered, Covers served x f

lemma report_congr {x y : Row} (hkind : y.kind = x.kind) (hkey : y.key = x.key)
    (hpayload : y.payload = x.payload) : report y = report x := by
  rw [report, report, hkind, hkey, hpayload]

lemma covers_later {x y : Row} (h : x.Later y) : Covers served y f ↔ Covers served x f := by
  rw [Covers, Covers, report_congr h.kind h.key h.payload]

lemma isStale_of_covers {x : Row} (h : Covers served x f) : isStale x.kind = true := by
  obtain ⟨r, hr, -⟩ := h
  by_contra hn
  rw [report, if_neg hn] at hr
  cases hr

lemma isStale_prefix (s : String) : isStale (stalePrefix ++ s) = true := by
  rw [isStale, String.toList_append]
  exact List.isPrefixOf_iff_prefix.mpr (List.prefix_append _ _)

lemma plain_of_stale {kind : String} (h : isStale kind = true) : plainKind kind = false := by
  by_contra hp
  simp only [plainKind, Bool.not_eq_false, List.contains_eq_mem, List.mem_cons, List.not_mem_nil,
    or_false, decide_eq_true_eq] at hp
  rcases hp with rfl | rfl | rfl | rfl | rfl <;> exact absurd h (by decide)

lemma queued_kind {roomId reason : String} {path : Option String} {nanos : ℕ} {q : Queued}
    (h : queued sha256 roomId path reason nanos = some q) : isStale q.kind = true := by
  simp only [queued, Option.ite_none_right_eq_some, Option.some.injEq] at h
  obtain ⟨-, rfl⟩ := h
  exact isStale_prefix _

/-- The row of a report reads as the report. -/
lemma report_row {q : Queued} (h : isStale q.kind = true) {x : Row} (hkind : x.kind = q.kind)
    (hkey : x.key = q.key) (hpayload : x.payload = q.payload.toString) :
    report x = some ⟨q.key, q.payload⟩ := by
  rw [report, if_pos (hkind ▸ h), hpayload, decode_toString, hkey]
  rfl

end Covered

/-! ### The table -/

section Table

variable {s : Store} {x : Row} {kind key payload : String}

lemma mem_enqueue (h : x ∈ s.rows) : x ∈ (s.enqueue kind key payload).rows := by
  rw [Store.enqueue]
  split
  · exact h
  · exact List.mem_append_left _ h

lemma mem_enqueueReplacing (h : x ∈ s.rows)
    (hn : ¬ (x.kind = kind ∧ x.state = .pending ∧ x.key < key)) :
    x ∈ (s.enqueueReplacing kind key payload).rows := by
  have hx : x ∈ (s.supersede kind key).rows :=
    List.mem_map.mpr ⟨x, h, if_neg hn⟩
  rw [Store.enqueueReplacing]
  split
  · exact hx
  · exact List.mem_append_left _ hx

/-- The new row is in unless one of the kind has a key as large. -/
lemma enqueueReplacing_new (payload : String)
    (hn : ¬ ∃ y ∈ s.rows, y.kind = kind ∧ key ≤ y.key) :
    ∃ y ∈ (s.enqueueReplacing kind key payload).rows, y.state = .pending ∧ y.kind = kind ∧
      y.key = key ∧ y.payload = payload := by
  have hany : ¬ (s.supersede kind key).rows.any fun r =>
      decide (r.kind = kind) && decide (key ≤ r.key) := by
    rw [List.any_eq_true]
    rintro ⟨y, hy, hk⟩
    rw [Bool.and_eq_true, decide_eq_true_eq, decide_eq_true_eq] at hk
    obtain ⟨z, hz, rfl⟩ := List.mem_map.mp hy
    have hl := later_supersede kind key z
    rw [hl.kind, hl.key] at hk
    exact hn ⟨z, hz, hk⟩
  rw [Store.enqueueReplacing, if_neg hany]
  exact ⟨_, List.mem_append_right _ (List.mem_singleton_self _), rfl, rfl, rfl, rfl⟩

/-- A row that is still pending is not the marked one, unless it is to be sent again. -/
lemma mem_mark {id : ℕ} {o : Outcome} (h : x ∈ s.rows) (hp : x.state = .pending)
    (ho : x.id = id → ∃ code, o = .transient code) :
    ∃ y ∈ (s.mark id o).rows, y.state = .pending ∧ x.Later y := by
  cases o with
  | sent =>
    have hne : x.id ≠ id := fun he => by
      obtain ⟨code, hc⟩ := ho he
      cases hc
    exact ⟨x, List.mem_map.mpr ⟨x, h, if_neg fun hc => hne hc.1⟩, hp, .refl x⟩
  | transient code =>
    refine ⟨_, List.mem_map_of_mem h, ?_, later_update id _ _ x⟩
    split
    · rfl
    · exact hp
  | terminal code =>
    have hne : x.id ≠ id := fun he => by
      obtain ⟨code, hc⟩ := ho he
      cases hc
    exact ⟨x, List.mem_map.mpr ⟨x, h, if_neg fun hc => hne hc.1⟩, hp, .refl x⟩

end Table

/-! ### What every run keeps -/

section Run

variable {sha256 : String → String} {served : String → Bool} {c c' : Course} {f : CachedFile}

/-- The item is listed by a flush. -/
def Listed (w : World) (x : Row) : Prop :=
  ∃ i g, w.flushes i = some g ∧ (x ∈ g.rest ∨ ∃ o, g.marking = some (x, o))

/-- The item is marked for good. -/
def Marking (w : World) (x : Row) : Prop :=
  ∃ i g o, w.flushes i = some g ∧ g.marking = some (x, o) ∧ ∀ code, o ≠ .transient code

structure Sound (served : String → Bool) (c : Course) : Prop where
  store : c.world.store.Valid plainKind
  made : ∀ r ∈ c.made, ∀ f, r.covers served f → Reached served c.world f ∨ c.Awaits served f
  listed : ∀ x, Listed c.world x → ∃ y ∈ c.world.store.rows, x.Later y
  marking : ∀ x, Marking c.world x → ∀ f, Covers served x f → Reached served c.world f

lemma Sound.initial : Sound served .initial where
  store := .empty plainKind
  made := by simp [Course.initial]
  listed := by
    rintro x ⟨i, g, hg, -⟩
    cases hg
  marking := by
    rintro x ⟨i, g, o, hg, -⟩
    cases hg

/-- A change of the table while the flushes stay as they are. -/
lemma Sound.store_step (h : Sound served c) {s : Store} {made : List Report}
    (hv : s.Valid plainKind) (hl : c.world.store.Later s)
    (hm : ∀ r ∈ made, ∀ f, r.covers served f → Reached served c.world f ∨
      ∃ x ∈ s.rows, x.state = .pending ∧ Covers served x f) :
    Sound served ⟨{ c.world with store := s }, made⟩ where
  store := hv
  made := hm
  listed x hx := by
    obtain ⟨y, hy, hxy⟩ := h.listed x hx
    obtain ⟨y', hy', hly⟩ := hl y hy
    exact ⟨y', hy', hxy.trans hly⟩
  marking := h.marking

lemma listed_setFlush {w : World} {i : ℕ} {g : Option Flush} {x : Row}
    (h : Listed (w.setFlush i g) x) :
    Listed w x ∨ ∃ k, g = some k ∧ (x ∈ k.rest ∨ ∃ o, k.marking = some (x, o)) := by
  obtain ⟨j, k, hk, hx⟩ := h
  by_cases hj : j = i
  · subst hj
    simp only [World.setFlush, Function.update_self] at hk
    exact .inr ⟨k, hk, hx⟩
  · simp only [World.setFlush, Function.update_of_ne hj] at hk
    exact .inl ⟨j, k, hk, hx⟩

lemma marking_setFlush {w : World} {i : ℕ} {g : Option Flush} {x : Row}
    (h : Marking (w.setFlush i g) x) : Marking w x ∨
      ∃ k o, g = some k ∧ k.marking = some (x, o) ∧ ∀ code, o ≠ .transient code := by
  obtain ⟨j, k, o, hk, hx⟩ := h
  by_cases hj : j = i
  · subst hj
    simp only [World.setFlush, Function.update_self] at hk
    exact .inr ⟨k, o, hk, hx⟩
  · simp only [World.setFlush, Function.update_of_ne hj] at hk
    exact .inl ⟨j, k, o, hk, hx⟩

/-- A flush that lists nothing new and marks nothing new. -/
lemma Sound.flush_step (h : Sound served c) {i : ℕ} {g : Option Flush}
    (hlist : ∀ k, g = some k → ∀ x, (x ∈ k.rest ∨ ∃ o, k.marking = some (x, o)) →
      ∃ y ∈ c.world.store.rows, x.Later y)
    (hmark : ∀ k, g = some k → k.marking = none) :
    Sound served { c with world := c.world.setFlush i g } where
  store := h.store
  made := h.made
  listed x hx := by
    rcases listed_setFlush hx with hx | ⟨k, hk, hx⟩
    · exact h.listed x hx
    · exact hlist k hk x hx
  marking x hx := by
    rcases marking_setFlush hx with hx | ⟨k, o, hk, hm, -⟩
    · exact h.marking x hx
    · rw [hmark k hk] at hm
      cases hm

lemma Sound.dispatch (h : Sound served c) {i : ℕ} {x : Row} {rest : List Row}
    (hf : c.world.flushes i = some ⟨none, x :: rest⟩) {reached : Bool} {o : Outcome}
    (hk : c.Kept sha256 served (.outbox (.dispatch i reached o)))
    (hs : ¬ (o = .sent ∧ reached = false)) :
    Sound served { c with world :=
      { c.world.setFlush i (some ⟨some (x, o), rest⟩) with
        delivered := if reached then c.world.delivered ++ [x] else c.world.delivered } } := by
  have hgrow : ∀ f, Reached served c.world f → ∃ y ∈ (if reached then c.world.delivered ++ [x]
      else c.world.delivered), Covers served y f := by
    rintro f ⟨y, hy, hc⟩
    refine ⟨y, ?_, hc⟩
    split
    · exact List.mem_append_left _ hy
    · exact hy
  refine ⟨h.store, fun r hr f hrf => (h.made r hr f hrf).imp (hgrow f) id, fun y hy => ?_,
    fun y hy f hyf => ?_⟩
  · rcases listed_setFlush hy with hy | ⟨k, hk', hy⟩
    · exact h.listed y hy
    · cases hk'
      refine h.listed y ⟨i, _, hf, .inl ?_⟩
      rcases hy with hy | ⟨o', hy⟩
      · exact List.mem_cons_of_mem _ hy
      · cases hy
        exact List.mem_cons_self
  · rcases marking_setFlush hy with hy | ⟨k, o', hk', hm, ho⟩
    · exact hgrow f (h.marking y hy f hyf)
    · cases hk'
      cases hm
      have hreached : reached = true := by
        cases o with
        | sent => simpa using hs
        | transient code => exact absurd rfl (ho code)
        | terminal code =>
          obtain ⟨r, hr, hrf⟩ := hyf
          simp only [Report.covers, Bool.and_eq_true] at hrf
          exact hk x rest hf r hr hrf.1.1.1
      refine ⟨x, ?_, hyf⟩
      rw [if_pos hreached]
      exact List.mem_append_right _ (List.mem_singleton_self x)

lemma Sound.mark (h : Sound served c) {i : ℕ} {x : Row} {o : Outcome} {rest : List Row}
    (hf : c.world.flushes i = some ⟨some (x, o), rest⟩) :
    Sound served { c with world :=
      { c.world.setFlush i (some ⟨none, rest⟩) with store := c.world.store.mark x.id o } } := by
  obtain ⟨hv, hl⟩ := h.store.mark x.id o
  have hx : Listed c.world x := ⟨i, _, hf, .inr ⟨o, rfl⟩⟩
  have hm : ∀ r ∈ c.made, ∀ f, r.covers served f → Reached served c.world f ∨
      ∃ y ∈ (c.world.store.mark x.id o).rows, y.state = .pending ∧ Covers served y f := by
    intro r hr f hrf
    rcases h.made r hr f hrf with hd | ⟨y, hy, hp, hc⟩
    · exact .inl hd
    · by_cases ho : y.id = x.id → ∃ code, o = .transient code
      · obtain ⟨z, hz, hzp, hyz⟩ := mem_mark hy hp ho
        exact .inr ⟨z, hz, hzp, (covers_later hyz).mpr hc⟩
      · -- the row leaves the table's pending ones, and what it covers has been reached
        push Not at ho
        obtain ⟨z, hz, hxz⟩ := h.listed x hx
        have hzy : z = y := List.inj_on_of_nodup_map h.store.ids hz hy (hxz.id.trans ho.1.symm)
        subst hzy
        exact .inl (h.marking x ⟨i, _, o, hf, rfl, ho.2⟩ f ((covers_later hxz).mp hc))
  exact (h.flush_step (g := some ⟨none, rest⟩) (fun k hk y hy => by
    cases hk
    rcases hy with hy | ⟨o', hy⟩
    · exact h.listed y ⟨i, _, hf, .inl hy⟩
    · cases hy) (fun k hk => by cases hk; rfl)).store_step hv hl hm

end Run

section Claim

variable {sha256 : String → String} {served : String → Bool} {c c' : Course} {f : CachedFile}

/-- What the pending reports cover is still covered when a report comes in. -/
lemma Sound.awaits_stale (h : Sound served c) {roomId reason : String} {path : Option String}
    {nanos : ℕ} (hk : c.Kept sha256 served (.stale roomId path reason nanos)) {q : Queued}
    (hq : queued sha256 roomId path reason nanos = some q) (hf : c.Awaits served f) :
    ∃ y ∈ (c.world.store.enqueueReplacing q.kind q.key q.payload.toString).rows,
      y.state = .pending ∧ Covers served y f := by
  obtain ⟨x, hx, hp, hc⟩ := hf
  by_cases hsup : x.kind = q.kind ∧ x.state = .pending ∧ x.key < q.key
  · -- the row is superseded, and the new one is in since no row of the kind is newer
    obtain ⟨r, hr, hrf⟩ := hc
    have hnew := (hk q hq).1 x hx hsup.1 hp hsup.2.2 r hr f hrf
    have hplain : plainKind x.kind = false := by
      have hst := queued_kind hq
      rw [← hsup.1] at hst
      exact plain_of_stale hst
    have hnone : ¬ ∃ y ∈ c.world.store.rows, y.kind = q.kind ∧ q.key ≤ y.key := by
      rintro ⟨z, hz, hzk, hzkey⟩
      have hle := h.store.newest x hx hplain hp z hz (hzk.trans hsup.1.symm)
      exact absurd (hzkey.trans hle) (not_le.mpr hsup.2.2)
    obtain ⟨y, hy, hyp, hyk, hykey, hypay⟩ := enqueueReplacing_new q.payload.toString hnone
    exact ⟨y, hy, hyp, _, report_row (queued_kind hq) hyk hykey hypay, hnew⟩
  · exact ⟨x, mem_enqueueReplacing hx hsup, hp, hc⟩

lemma Sound.stale (h : Sound served c) {roomId reason : String} {path : Option String} {nanos : ℕ}
    (hk : c.Kept sha256 served (.stale roomId path reason nanos)) {q : Queued}
    (hq : queued sha256 roomId path reason nanos = some q) :
    Sound served
      { world :=
          { c.world with store := c.world.store.enqueueReplacing q.kind q.key q.payload.toString }
        made := c.made ++ [⟨q.key, q.payload⟩] } := by
  obtain ⟨hv, hl⟩ := h.store.enqueueReplacing q.kind q.key q.payload.toString
  have hold : ∀ r ∈ c.made, ∀ f, r.covers served f → Reached served c.world f ∨
      ∃ x ∈ (c.world.store.enqueueReplacing q.kind q.key q.payload.toString).rows,
        x.state = .pending ∧ Covers served x f :=
    fun r hr f hrf => (h.made r hr f hrf).imp id (h.awaits_stale hk hq)
  refine h.store_step hv hl fun r hr f hrf => ?_
  rcases List.mem_append.mp hr with hr | hr
  · exact hold r hr f hrf
  · rw [List.mem_singleton.mp hr] at hrf
    by_cases hex : ∃ y ∈ c.world.store.rows, y.kind = q.kind ∧ q.key ≤ y.key
    · obtain ⟨s, hs, hw⟩ := (hk q hq).2 hex
      exact hold s hs f (hw f hrf)
    · obtain ⟨y, hy, hyp, hyk, hykey, hypay⟩ := enqueueReplacing_new q.payload.toString hex
      exact .inr ⟨y, hy, hyp, _, report_row (queued_kind hq) hyk hykey hypay, hrf⟩

/-- A change of the table by another producer. -/
lemma Sound.foreign (h : Sound served c) {s : Store} (hv : s.Valid plainKind)
    (hl : c.world.store.Later s)
    (hkeep : ∀ x ∈ c.world.store.rows, x.state = .pending → isStale x.kind = true → x ∈ s.rows) :
    Sound served { c with world := { c.world with store := s } } :=
  h.store_step hv hl fun r hr f hrf => (h.made r hr f hrf).imp id fun ⟨x, hx, hp, hc⟩ =>
    ⟨x, hkeep x hx hp (isStale_of_covers hc), hp, hc⟩

/-- **One step keeps the reports.** -/
lemma Sound.step (h : Sound served c) {e : Event} (hk : c.Kept sha256 served e)
    (hs : c.step sha256 e = some c') : Sound served c' := by
  cases e with
  | stale roomId path reason nanos =>
    simp only [Course.step] at hs
    split at hs
    · rename_i q hq
      cases hs
      exact h.stale hk hq
    · cases hs
      exact h
  | outbox l =>
    simp only [Course.step, Option.ite_none_right_eq_some, Option.map_eq_some_iff] at hs
    obtain ⟨hl, w, hw, rfl⟩ := hs
    cases l with
    | enqueue kind key payload =>
      simp only [World.step, Option.ite_none_right_eq_some, Option.some.injEq] at hw
      obtain ⟨hp, rfl⟩ := hw
      obtain ⟨hv, hl⟩ := h.store.enqueue hp key payload
      exact h.foreign hv hl fun x hx _ _ => mem_enqueue hx
    | enqueueReplacing kind key payload =>
      simp only [World.step, Option.ite_none_left_eq_some, Option.some.injEq] at hw
      obtain ⟨-, rfl⟩ := hw
      simp only [Label.foreign, Bool.not_eq_true'] at hl
      obtain ⟨hv, hlater⟩ := h.store.enqueueReplacing kind key payload
      refine h.foreign hv hlater fun x hx _ hst => mem_enqueueReplacing hx fun hc => ?_
      rw [hc.1, hl] at hst
      cases hst
    | begin i =>
      simp only [World.step] at hw
      split at hw
      · cases hw
        refine h.flush_step (fun k hk x hx => ?_) fun k hk => ?_
        · cases hk
          rcases hx with hx | ⟨o, hx⟩
          · exact ⟨x, (mem_pendingBatch hx).1, .refl x⟩
          · cases hx
        · cases hk
          rfl
      · cases hw
    | dispatch i reached o =>
      simp only [World.step] at hw
      split at hw
      · rename_i x rest hf
        split at hw
        · cases hw
        · rename_i hn
          cases hw
          exact h.dispatch hf hk hn
      · cases hw
    | mark i =>
      simp only [World.step] at hw
      split at hw
      · rename_i x o rest hf
        cases hw
        exact h.mark hf
      · cases hw
    | finish i =>
      simp only [World.step] at hw
      split at hw
      · cases hw
        exact h.flush_step (by rintro _ ⟨⟩) (by rintro _ ⟨⟩)
      · cases hw
    | abandon i =>
      simp only [World.step, Option.some.injEq] at hw
      subst hw
      exact h.flush_step (by rintro _ ⟨⟩) (by rintro _ ⟨⟩)

/-- **No report is lost** in a run in which a report covers what it supersedes, is dropped only
for an earlier one that covers it, and is given up only when it has reached the server. -/
theorem never_lost {es : List Event}
    (h : Meets (Course.step sha256) (Course.Kept sha256 served) .initial es) :
    NeverLost sha256 served es where
  drained c hr hd files f hf hst := by
    have hc : Sound served c := run_invariant (fun h hk hs => h.step hk hs) .initial h hr
    refine deliver_mono (fun r hrm f hrf => ?_) hf hst
    rcases hc.made r hrm f hrf with ⟨x, hx, s, hs, hsf⟩ | ⟨x, hx, hp, hcov⟩
    · exact ⟨s, List.mem_filterMap.mpr ⟨x, hx, hs⟩, hsf⟩
    · have hn := hd x hx hp
      rw [isStale_of_covers hcov] at hn
      cases hn
  superseding es' roomId path reason nanos es'' he c c' hr hs f hf := by
    subst he
    have hc : Sound served c :=
      run_invariant (fun h hk hs => h.step hk hs) .initial h.prefix hr
    have hk := h.at hr
    simp only [Course.step] at hs
    split at hs
    · rename_i q hq
      cases hs
      exact hc.awaits_stale hk hq hf
    · cases hs
      exact hf

end Claim

/-! ### Samples -/

def sampleRoom : String := "018f4c7b-1ad6-7c95-bf34-5e45881f98a1"

/-- The digest of the room and the path of the samples. -/
def sampleSha256 (text : String) : String :=
  if text = sampleRoom ++ "\x00docs" then
    "5b2d64ff49a3b7a70ecaf2e5f04058e8334372b87a09b5aa9c8d043ada57e52d"
  else ""

def sampleServed (roomId : String) : Bool := roomId = sampleRoom

/-- A folder is touched and then removed, and the answer to the first delivery gets lost. -/
def sampleEvents : List Event :=
  [.stale sampleRoom (some "docs") "SOURCE_CHANGED" 1784000000000000000,
    .stale sampleRoom (some "docs") "SOURCE_REMOVED" 1784000000000000001,
    .outbox (.begin 0), .outbox (.dispatch 0 true (.transient "TRANSPORT_UNAVAILABLE")),
    .outbox (.mark 0), .outbox (.finish 0), .outbox (.begin 0),
    .outbox (.dispatch 0 true .sent), .outbox (.mark 0), .outbox (.finish 0)]

def sampleKind : String :=
  "smart_cache_stale:5b2d64ff49a3b7a70ecaf2e5f04058e8334372b87a09b5aa9c8d043ada57e52d"

def sampleChanged : Queued :=
  ⟨sampleKind, "000000000000000000001784000000000000000-SOURCE_CHANGED",
    ⟨sampleRoom, some "docs", "SOURCE_CHANGED"⟩⟩

def sampleRemoved : Queued :=
  ⟨sampleKind, "000000000000000000001784000000000000001-SOURCE_REMOVED",
    ⟨sampleRoom, some "docs", "SOURCE_REMOVED"⟩⟩

/-- A removal is followed by a touch before the first delivery. -/
def lostEvents : List Event :=
  [.stale sampleRoom (some "docs") "SOURCE_REMOVED" 1784000000000000000,
    .stale sampleRoom (some "docs") "SOURCE_CHANGED" 1784000000000000001,
    .outbox (.begin 0), .outbox (.dispatch 0 true .sent), .outbox (.mark 0), .outbox (.finish 0)]

def lostFile : CachedFile := ⟨1, sampleRoom, "docs/a.pdf", .available, .verifiedCurrent⟩

def lostRemoved : Queued :=
  ⟨sampleKind, "000000000000000000001784000000000000000-SOURCE_REMOVED",
    ⟨sampleRoom, some "docs", "SOURCE_REMOVED"⟩⟩

def lostChanged : Queued :=
  ⟨sampleKind, "000000000000000000001784000000000000001-SOURCE_CHANGED",
    ⟨sampleRoom, some "docs", "SOURCE_CHANGED"⟩⟩

/-- What the texts of the samples give. -/
lemma sample_texts :
    (queued sampleSha256 sampleRoom (some "docs") "SOURCE_CHANGED" 1784000000000000000 =
        some sampleChanged ∧
      queued sampleSha256 sampleRoom (some "docs") "SOURCE_REMOVED" 1784000000000000001 =
        some sampleRemoved ∧
      ¬ sampleRemoved.key ≤ sampleChanged.key ∧
      Report.accepted sampleServed ⟨sampleChanged.key, sampleChanged.payload⟩ = true ∧
      Report.accepted sampleServed ⟨sampleRemoved.key, sampleRemoved.payload⟩ = true) ∧
    queued sampleSha256 sampleRoom (some "docs") "SOURCE_REMOVED" 1784000000000000000 =
        some lostRemoved ∧
      queued sampleSha256 sampleRoom (some "docs") "SOURCE_CHANGED" 1784000000000000001 =
        some lostChanged ∧
      ¬ lostChanged.key ≤ lostRemoved.key ∧
      { lostFile with freshnessStatus := .stale } ∈ deliver sampleServed [lostFile]
        [⟨lostRemoved.key, lostRemoved.payload⟩, ⟨lostChanged.key, lostChanged.payload⟩] ∧
      deliver sampleServed [lostFile] [⟨lostChanged.key, lostChanged.payload⟩] = [lostFile] := by
  refine ⟨⟨?_, ?_, ?_, ?_, ?_⟩, ?_, ?_, ?_, ?_, ?_⟩ <;> decide +kernel

lemma within_removed {served : String → Bool} {key key' roomId path : String}
    (h : Report.accepted served ⟨key, ⟨roomId, some path, "SOURCE_CHANGED"⟩⟩)
    (h' : Report.accepted served ⟨key', ⟨roomId, some path, "SOURCE_REMOVED"⟩⟩) :
    Report.Within served ⟨key, ⟨roomId, some path, "SOURCE_CHANGED"⟩⟩
      ⟨key', ⟨roomId, some path, "SOURCE_REMOVED"⟩⟩ := by
  have hiff := within_iff (r := ⟨key, ⟨roomId, some path, "SOURCE_CHANGED"⟩⟩)
    (s := ⟨key', ⟨roomId, some path, "SOURCE_REMOVED"⟩⟩) rfl rfl rfl h h'
  exact hiff.mpr fun _ => rfl

lemma kept_second {sha256 : String → String} {served : String → Bool} {c : Course}
    {roomId reason : String} {path : Option String} {nanos : ℕ} {q q' : Queued}
    (hrows : c.world.store.rows =
      [⟨1, q.kind, q.key, q.payload.toString, .pending, 0, none⟩])
    (hstale : isStale q.kind = true) (hq : queued sha256 roomId path reason nanos = some q')
    (hkey : ¬ q'.key ≤ q.key) (hw : Report.Within served ⟨q.key, q.payload⟩ ⟨q'.key, q'.payload⟩) :
    c.Kept sha256 served (.stale roomId path reason nanos) := by
  intro s hs
  rw [hq] at hs
  cases hs
  rw [hrows]
  refine ⟨fun x hx _ _ _ r hr => ?_, ?_⟩
  · obtain rfl := List.mem_singleton.mp hx
    rw [report_row (x := ⟨1, q.kind, q.key, q.payload.toString, .pending, 0, none⟩) hstale
      rfl rfl rfl] at hr
    cases hr
    exact hw
  · rintro ⟨x, hx, -, hle⟩
    obtain rfl := List.mem_singleton.mp hx
    exact absurd hle hkey

lemma step_stale {sha256 : String → String} {c : Course} {roomId reason : String}
    {path : Option String} {nanos : ℕ} {q : Queued}
    (hq : queued sha256 roomId path reason nanos = some q) :
    c.step sha256 (.stale roomId path reason nanos) = some
      { world :=
          { c.world with store := c.world.store.enqueueReplacing q.kind q.key q.payload.toString }
        made := c.made ++ [⟨q.key, q.payload⟩] } := by
  rw [Course.step, hq]

lemma initial_rows (kind key payload : String) :
    (Course.initial.world.store.enqueueReplacing kind key payload).rows =
      [⟨1, kind, key, payload, .pending, 0, none⟩] :=
  rfl

lemma sample_within : Report.Within sampleServed ⟨sampleChanged.key, sampleChanged.payload⟩
    ⟨sampleRemoved.key, sampleRemoved.payload⟩ :=
  have ⟨⟨_, _, _, hchanged, hremoved⟩, _⟩ := sample_texts
  within_removed hchanged hremoved

lemma sample_meets : Meets (Course.step sampleSha256) (Course.Kept sampleSha256 sampleServed)
    .initial sampleEvents := by
  have ⟨⟨queued_changed, queued_removed, hlater, _⟩, _⟩ := sample_texts
  refine ⟨fun q _ => ⟨nofun, nofun⟩, fun c hc => ⟨?_, fun _ _ => meets_of_forall ?_⟩⟩
  · rw [step_stale queued_changed] at hc
    cases hc
    exact kept_second (initial_rows _ _ _) (queued_kind queued_changed) queued_removed
      hlater sample_within
  · simp [Course.Kept]

/-- Two reports of one kind are queued; the later supersedes the earlier. -/
lemma run_pair {sha256 : String → String} {roomId reason reason' : String} {path : Option String}
    {nanos nanos' : ℕ} {q q' : Queued} (hq : queued sha256 roomId path reason nanos = some q)
    (hq' : queued sha256 roomId path reason' nanos' = some q') (hkind : q'.kind = q.kind)
    (hkey : ¬ q'.key ≤ q.key) (es : List Event) :
    run (Course.step sha256) .initial
        (.stale roomId path reason nanos :: .stale roomId path reason' nanos' :: es) =
      run (Course.step sha256)
        { world := ⟨⟨[⟨1, q.kind, q.key, q.payload.toString, .superseded, 0, none⟩,
            ⟨2, q.kind, q'.key, q'.payload.toString, .pending, 0, none⟩], 3⟩, fun _ => none, []⟩
          made := [⟨q.key, q.payload⟩, ⟨q'.key, q'.payload⟩] } es := by
  have hlt : q.key < q'.key := String.not_le.mp hkey
  have hfirst : (Store.empty).enqueueReplacing q.kind q.key q.payload.toString =
      ⟨[⟨1, q.kind, q.key, q.payload.toString, .pending, 0, none⟩], 2⟩ := rfl
  have hsup : Store.supersede q.kind q'.key
      ⟨[⟨1, q.kind, q.key, q.payload.toString, .pending, 0, none⟩], 2⟩ =
      ⟨[⟨1, q.kind, q.key, q.payload.toString, .superseded, 0, none⟩], 2⟩ :=
    congrArg (fun r => Store.mk [r] 2) (if_pos ⟨rfl, rfl, hlt⟩)
  have hsecond : Store.enqueueReplacing q.kind q'.key q'.payload.toString
      ⟨[⟨1, q.kind, q.key, q.payload.toString, .pending, 0, none⟩], 2⟩ =
      ⟨[⟨1, q.kind, q.key, q.payload.toString, .superseded, 0, none⟩,
        ⟨2, q.kind, q'.key, q'.payload.toString, .pending, 0, none⟩], 3⟩ := by
    simp only [Store.enqueueReplacing, hsup, List.any_cons, List.any_nil, hkey, decide_false,
      Bool.and_false, Bool.or_false]
    rfl
  rw [run, step_stale hq, Option.bind_some, run, step_stale hq', Option.bind_some, hkind]
  exact congrArg (fun s => run (Course.step sha256) ⟨⟨s, fun _ => none, []⟩,
    [⟨q.key, q.payload⟩, ⟨q'.key, q'.payload⟩]⟩ es) ((congrArg _ hfirst).trans hsecond)

theorem never_lost_sample : NeverLost sampleSha256 sampleServed sampleEvents ∧
    (run (Course.step sampleSha256) .initial sampleEvents).map (fun c =>
      (c.world.store.rows.map fun x => (x.kind, x.state), c.world.delivered.length)) =
      some ([(sampleKind, .superseded), (sampleKind, .sent)], 2) := by
  have ⟨⟨queued_changed, queued_removed, hlater, _⟩, _⟩ := sample_texts
  refine ⟨never_lost sample_meets, ?_⟩
  rw [sampleEvents, run_pair queued_changed queued_removed rfl hlater]
  rfl

/-- The change is sent, and the removal is not. -/
lemma run_lost : ∃ c, run (Course.step sampleSha256) .initial lostEvents = some c ∧ c.Drained ∧
    c.made = [⟨lostRemoved.key, lostRemoved.payload⟩, ⟨lostChanged.key, lostChanged.payload⟩] ∧
    c.world.delivered.filterMap report = [⟨lostChanged.key, lostChanged.payload⟩] := by
  have ⟨_, queued_removed, queued_changed, hlater, _⟩ := sample_texts
  rw [lostEvents, run_pair queued_removed queued_changed rfl hlater]
  refine ⟨_, rfl, fun x hx hp => ?_, rfl, ?_⟩
  · rcases List.mem_cons.mp hx with rfl | hx
    · cases hp
    · obtain rfl := List.mem_singleton.mp hx
      cases hp
  · have hreport : report ⟨2, lostRemoved.kind, lostChanged.key, lostChanged.payload.toString,
        .pending, 0, none⟩ = some ⟨lostChanged.key, lostChanged.payload⟩ :=
      report_row (queued_kind queued_changed) rfl rfl rfl
    exact (List.filterMap_cons_some hreport).trans rfl

theorem not_never_lost : ¬ ∀ es, NeverLost sampleSha256 sampleServed es := by
  intro h
  obtain ⟨c, hc, hd, hmade, hsent⟩ := run_lost
  have ⟨_, _, _, _, hmarked, hreceived⟩ := sample_texts
  rw [← hmade] at hmarked
  rw [← hsent] at hreceived
  obtain ⟨g, hg, -, hst⟩ := (h lostEvents).drained c hc hd [lostFile] _ hmarked rfl
  rw [hreceived] at hg
  rw [List.mem_singleton.mp hg] at hst
  cases hst

end MouseKeeper.Desktop.StaleReports
