import MouseKeeper.Desktop.RuleEvents

/-!
When the folders have the rules of the server.

A replay takes no notice of a rule that is changed. The file of a folder follows the rules of its
room as long as a rule changes only while its creation has yet to be asked for, and nothing else
writes the file between the merge of a rule and the write.
-/

namespace MouseKeeper.Desktop.MirroredRules

open FileEngine
open ManagedRootStore
open RuleEvents
open Machine (run Meets)
open Posix (bind_eq_ok)

/-! ### What is asked -/

/-- The rules that a file stands for. -/
def rulesIn : RulesFile → Option (List Rule)
  | .absent => some defaultRuleSet.rules
  | .parsed set => some set.rules
  | _ => none

/-- What an enabled rule becomes. -/
def translated (r : AgentRule) : List Rule :=
  match incomingRules r with
  | .ok l => l
  | .error _ => []

/-- Every folder has the rules that it had before, and those of its room. An event that comes again
leaves the rules of the file, and their order exactly if the rules of the event come last. -/
def Mirrored (roots : Roots) (before : String → RulesFile) (w : World) : Prop :=
  ∀ roomId root l₀, findByRoom roots roomId = some root → rulesIn (before root.root) = some l₀ →
    ∃ l, rulesIn (w.files root.root) = some l ∧
      l.Perm (l₀ ++ (w.server.list roomId).flatMap translated) ∧
      ∀ r ∈ w.server.list roomId, ∃ set,
        mergedRules (rulesPath root) (w.files root.root) r = .ok set ∧
          set.rules.Perm l ∧ (set.rules = l ↔ translated r <:+ l)

def AllReplayed (w : World) : Prop := ∀ e ∈ w.server.events, e.sequence ≤ w.cursor

instance (w : World) : Decidable (AllReplayed w) := by
  unfold AllReplayed
  infer_instance

/-- The events that a replay has yet to take. -/
def ahead (p : Replay) : List SyncEvent :=
  match p.phase with
  | .asking => []
  | .taking events | .listed _ events | .merged _ _ _ _ events => events

/-- The rule that a replay has been told. -/
def inHand (p : Replay) : Option AgentRule :=
  match p.phase with
  | .listed rule _ | .merged _ _ _ rule _ => some rule
  | _ => none

/-- The event is one that the replay has yet to take, or one behind its page. -/
def Awaits (sequence : ℕ) (p : Replay) : Prop :=
  sequence ∈ (ahead p).map (·.sequence) ∨ p.last < sequence

/-- The creation of the rule is behind the cursor, and no replay has been told of it yet. -/
def Untaken (w : World) (ruleId : String) : Prop :=
  ∀ e ∈ w.server.events, e.eventType = "rule.created" → e.ruleId = ruleId →
    w.cursor < e.sequence ∧
      ∀ p ∈ w.replays, Awaits e.sequence p ∧ ∀ r ∈ inHand p, r.ruleId ≠ ruleId

/-- The file is as it was when the rule was merged. -/
def AsFound (w : World) (p : Replay) : Prop :=
  match p.phase with
  | .merged root found _ _ _ => w.files root.root = found
  | _ => True

/-- A write that fails leaves the file. -/
def LeavesFile (w : World) (p : Replay) (left : Option RulesFile) : Prop :=
  match p.phase, left with
  | .merged root _ _ _ _, some file => file = w.files root.root
  | _, _ => True

instance (w : World) (p : Replay) : Decidable (AsFound w p) := by
  unfold AsFound
  split <;> infer_instance

instance (w : World) (p : Replay) (left : Option RulesFile) : Decidable (LeavesFile w p left) := by
  unfold LeavesFile
  split <;> infer_instance

instance (w : World) (ruleId : String) : Decidable (Untaken w ruleId) := by
  unfold Untaken Awaits
  infer_instance

/-- A change of a rule changes no translation, or comes before the creation of the rule is asked
for; nothing comes between the merge and the write of a file; and a write that fails leaves the
file. -/
def Harmless (w : World) : Step → Prop
  | .update ruleId body _ => ∀ r ∈ w.server.rules, r.ruleId = ruleId → r.version = body.version →
      incomingRules (body.set r) = incomingRules r ∨ Untaken w ruleId
  | .proceed i => ∀ p ∈ w.replays[i]?, AsFound w p
  | .fail i left => ∀ p ∈ w.replays[i]?, LeavesFile w p left
  | _ => True

instance (w : World) (l : Step) : Decidable (Harmless w l) := by
  unfold Harmless
  split <;> infer_instance

/-! ### Names -/

lemma isPrefix_of_madeOf {ruleId : String} {x : Rule} (h : madeOf ruleId x = true) :
    ruleId.toList <+: x.id.toList := by
  rw [madeOf, Bool.or_eq_true, decide_eq_true_eq, List.isPrefixOf_iff_prefix] at h
  rcases h with h | h
  · rw [h]
  · rw [String.toList_append] at h
    exact (List.prefix_append _ _).trans h

/-- No rule is named after two ids of one length. -/
lemma madeOf_unique {a b : String} {x : Rule} (hlen : a.length = b.length)
    (ha : madeOf a x = true) (hb : madeOf b x = true) : a = b := by
  have hlen' : a.toList.length = b.toList.length := hlen
  exact String.toList_inj.mp
    ((List.prefix_of_prefix_length_le (isPrefix_of_madeOf ha) (isPrefix_of_madeOf hb)
      hlen'.le).eq_of_length hlen')

/-- The rules that are named after none of the ids. -/
def foreign (ids : List String) (l : List Rule) : List Rule :=
  l.filter fun x => !ids.any (madeOf · x)

/-- A list of rules is taken apart by the ids. -/
lemma perm_foreign {ids : List String} (hids : ids.Nodup) (hlen : ∀ i ∈ ids, i.length = 36)
    (l : List Rule) :
    l.Perm (foreign ids l ++ ids.flatMap fun i => l.filter (madeOf i)) := by
  induction ids with
  | nil => simp [foreign]
  | cons i ids ih =>
    obtain ⟨hi, hids⟩ := List.nodup_cons.mp hids
    have ih := ih hids fun j hj => hlen j (List.mem_cons_of_mem i hj)
    have hsplit := List.filter_append_perm (madeOf i) (foreign ids l)
    have hof : (foreign ids l).filter (madeOf i) = l.filter (madeOf i) := by
      rw [foreign, List.filter_filter]
      refine List.filter_congr fun x _ => ?_
      cases hx : madeOf i x with
      | false => rfl
      | true =>
        rw [Bool.true_and, Bool.not_eq_true', List.any_eq_false]
        intro j hj hjx
        have hij := madeOf_unique ((hlen i List.mem_cons_self).trans
          (hlen j (List.mem_cons_of_mem i hj)).symm) hx hjx
        exact hi (hij ▸ hj)
    have hnot : (foreign ids l).filter (fun x => !madeOf i x) = foreign (i :: ids) l := by
      rw [foreign, foreign, List.filter_filter]
      refine List.filter_congr fun x _ => ?_
      rw [List.any_cons, Bool.not_or]
    rw [hof, hnot] at hsplit
    refine ih.trans ((hsplit.symm.append_right _).trans ?_)
    rw [List.flatMap_cons, ← List.append_assoc]
    exact List.perm_append_comm.append_right _

/-! ### Merging -/

lemma rulesIn_of_load {path : String} {file : RulesFile} {set : RuleSet}
    (h : loadRuleSetForRoot path file = .ok set) : rulesIn file = some set.rules := by
  obtain ⟨rfl, rfl⟩ | ⟨rfl, -⟩ := EventReplay.load_ok_iff.mp h
  · rfl
  · rfl

/-- The merge keeps the rules of others and puts those of the rule behind them. -/
lemma mergedRules_rules {path : String} {file : RulesFile} {rule : AgentRule} {set : RuleSet}
    (h : mergedRules path file rule = .ok set) : ∃ l incoming, rulesIn file = some l ∧
      incomingRules rule = .ok incoming ∧
      set.rules = l.filter (fun x => !madeOf rule.ruleId x) ++ incoming := by
  simp only [mergedRules, bind_eq_ok, mapError_eq_ok] at h
  obtain ⟨base, hbase, incoming, hin, _, -, h⟩ := h
  cases h
  exact ⟨base.rules, incoming, rulesIn_of_load hbase, hin, rfl⟩

/-- The file has of the rule exactly what it is translated to. -/
def Holds (file : RulesFile) (r : AgentRule) : Prop :=
  EventReplay.Readable file ∧
    ∀ l, rulesIn file = some l → incomingRules r = .ok (l.filter (madeOf r.ruleId))

section Merge

variable {path : String} {file : RulesFile} {rule r : AgentRule} {set : RuleSet}

lemma filter_merged {l incoming : List Rule}
    (hmade : ∀ x ∈ incoming, madeOf rule.ruleId x = true) :
    (l.filter (fun x => !madeOf rule.ruleId x) ++ incoming).filter (madeOf rule.ruleId) =
      incoming := by
  rw [List.filter_append, List.filter_filter, List.filter_eq_self.mpr hmade,
    List.filter_eq_nil_iff.mpr (by simp), List.nil_append]

/-- After the merge of a rule the file holds it. -/
lemma holds_merged (h : mergedRules path file rule = .ok set) (hid : r.ruleId = rule.ruleId)
    (hsame : incomingRules r = incomingRules rule) : Holds (.parsed set) r := by
  obtain ⟨l, incoming, -, hin, hrules⟩ := mergedRules_rules h
  refine ⟨.inr ⟨set, rfl, (EventReplay.mergedRules_ok h).2.2⟩, fun l' hl' => ?_⟩
  cases hl'
  rw [hsame, hin, hrules, hid, filter_merged (EventReplay.incoming_made hin).2.1]

/-- Of another rule the file holds what it held. -/
lemma Holds.merged (h : mergedRules path file rule = .ok set) (hold : Holds file r)
    (hne : r.ruleId ≠ rule.ruleId) (hlen : r.ruleId.length = rule.ruleId.length) :
    Holds (.parsed set) r := by
  obtain ⟨l, incoming, hl, hin, hrules⟩ := mergedRules_rules h
  refine ⟨.inr ⟨set, rfl, (EventReplay.mergedRules_ok h).2.2⟩, fun l' hl' => ?_⟩
  cases hl'
  have hother : ∀ x, madeOf rule.ruleId x = true → madeOf r.ruleId x = false := by
    intro x hx
    rw [← Bool.not_eq_true]
    exact fun hx' => hne (madeOf_unique hlen hx' hx)
  have hnone : incoming.filter (madeOf r.ruleId) = [] := by
    refine List.filter_eq_nil_iff.mpr fun x hx => ?_
    rw [hother x ((EventReplay.incoming_made hin).2.1 x hx)]
    exact Bool.false_ne_true
  rw [hold.2 l hl, hrules, List.filter_append, List.filter_filter, hnone, List.append_nil]
  refine congrArg Except.ok (List.filter_congr fun x _ => ?_)
  cases hx : madeOf rule.ruleId x with
  | false => rw [Bool.not_false, Bool.and_true]
  | true => rw [hother x hx, Bool.false_and]

/-- A rule that the file holds is merged again without a change, up to the order. -/
lemma Holds.again {l : List Rule} (h : Holds file r) (hl : rulesIn file = some l) : ∃ set,
    mergedRules path file r = .ok set ∧ set.rules.Perm l ∧
      (set.rules = l ↔ translated r <:+ l) := by
  have hin := h.2 l hl
  obtain ⟨set, hset⟩ : ∃ set, mergedRules path file r = .ok set :=
    EventReplay.mergedRules_of h.1 (EventReplay.incoming_made hin).1
  obtain ⟨l', incoming, hl', hin', hrules⟩ := mergedRules_rules hset
  cases hl.symm.trans hl'
  cases hin.symm.trans hin'
  have htranslated : translated r = l.filter (madeOf r.ruleId) := by
    rw [translated, hin]
  refine ⟨set, hset, ?_, ?_⟩
  · rw [hrules]
    exact List.perm_append_comm.trans (List.filter_append_perm _ _)
  · rw [hrules, htranslated]
    constructor
    · exact fun h => ⟨_, h⟩
    · rintro ⟨kept, hkept⟩
      have hsuffix : (l.filter (madeOf r.ruleId)).filter (madeOf r.ruleId) =
          l.filter (madeOf r.ruleId) :=
        List.filter_eq_self.mpr fun x hx => (List.mem_filter.mp hx).2
      have hfilter := congrArg (List.filter (madeOf r.ruleId)) hkept
      rw [List.filter_append, hsuffix, List.append_left_eq_self] at hfilter
      have hnone : (l.filter (madeOf r.ruleId)).filter (fun x => !madeOf r.ruleId x) = [] := by
        refine List.filter_eq_nil_iff.mpr fun x hx => ?_
        rw [(List.mem_filter.mp hx).2]
        exact Bool.false_ne_true
      have hall : kept.filter (fun x => !madeOf r.ruleId x) = kept := by
        refine List.filter_eq_self.mpr fun x hx => ?_
        rw [Bool.not_eq_true', ← Bool.not_eq_true]
        exact List.filter_eq_nil_iff.mp hfilter x hx
      have hkeeps := congrArg (List.filter fun x => !madeOf r.ruleId x) hkept
      rw [List.filter_append, hnone, hall, List.append_nil] at hkeeps
      rw [← hkeeps, hkept]

end Merge

/-! ### The invariant -/

section Invariant

variable (roots : Roots) (before : String → RulesFile)

/-- The ids of the rules, with their rooms. -/
def ids (w : World) : List String := w.server.rules.map (·.ruleId)

/-- What a replay has been told of a rule is true as far as it matters. -/
def Told (w : World) (v : AgentRule) : Prop :=
  ∃ r ∈ w.server.rules, r.ruleId = v.ruleId ∧ r.roomId = v.roomId ∧
    incomingRules r = incomingRules v

/-- What a replay has merged is the rule that it has been told, for the folder of its room. -/
def MergedWell (p : Replay) : Prop :=
  match p.phase with
  | .merged root found set v _ =>
    findByRoom roots v.roomId = some root ∧ mergedRules (rulesPath root) found v = .ok set
  | _ => True

/-- The creation of the rule is behind the cursor, and every replay has yet to write it. -/
def Pending (w : World) (ruleId : String) : Prop :=
  ∀ e ∈ w.server.events, e.eventType = "rule.created" → e.ruleId = ruleId →
    w.cursor < e.sequence ∧
      ∀ p ∈ w.replays, Awaits e.sequence p ∨ ∃ r ∈ inHand p, r.ruleId = ruleId

/-- The folder of the rule's room has the rule. -/
def InFolder (w : World) (r : AgentRule) : Prop :=
  ∀ root, findByRoom roots r.roomId = some root → (rulesIn (before root.root)).isSome →
    Holds (w.files root.root) r

/-- A folder has what it had before, and otherwise rules of its room alone. -/
def FolderKept (w : World) : Prop :=
  ∀ roomId root l₀, findByRoom roots roomId = some root → rulesIn (before root.root) = some l₀ →
    ∃ l, rulesIn (w.files root.root) = some l ∧ foreign (ids w) l = l₀ ∧
      ∀ x ∈ l, ∀ r ∈ w.server.rules, madeOf r.ruleId x = true → r.roomId = roomId

structure Inv (w : World) : Prop where
  nodup : (ids w).Nodup
  long : ∀ i ∈ ids w, i.length = 36
  sorted : w.server.events.Pairwise fun e e' => e.sequence < e'.sequence
  created : ∀ r ∈ w.server.rules, ∃ e ∈ w.server.events,
    e.eventType = "rule.created" ∧ e.ruleId = r.ruleId
  known : ∀ e ∈ w.server.events, e.eventType = "rule.created" →
    ∃ r ∈ w.server.rules, r.ruleId = e.ruleId ∧ e.roomId = some r.roomId
  cursor : w.cursor < nextSequence w.server.events
  page : ∀ p ∈ w.replays, p.last < nextSequence w.server.events ∧
    ∀ e ∈ ahead p, e ∈ w.server.events
  told : ∀ p ∈ w.replays, ∀ v ∈ inHand p, Told w v
  merged : ∀ p ∈ w.replays, MergedWell roots p
  folder : FolderKept roots before w
  mirror : ∀ r ∈ w.server.rules, Pending w r.ruleId ∨ InFolder roots before w r

variable {roots before} {w : World}

lemma lt_nextSequence {events : List SyncEvent}
    (h : events.Pairwise fun e e' => e.sequence < e'.sequence) {e : SyncEvent} (he : e ∈ events) :
    e.sequence < nextSequence events := by
  induction events using List.reverseRecOn with
  | nil => cases he
  | append_singleton events x _ =>
    rw [nextSequence, List.getLast?_concat]
    rcases List.mem_append.mp he with he | he
    · have := (List.pairwise_append.mp h).2.2 e he x List.mem_cons_self
      simp only [Option.map_some, Option.getD_some]
      omega
    · rw [List.mem_singleton.mp he]
      exact Nat.lt_succ_self _

/-- **What is said once every event has been replayed.** -/
lemma Inv.mirrored (h : Inv roots before w) (hall : AllReplayed w) : Mirrored roots before w := by
  intro roomId root l₀ hroot hl₀
  obtain ⟨l, hl, hforeign, hrooms⟩ := h.folder roomId root l₀ hroot hl₀
  have hholds : ∀ r ∈ w.server.list roomId, Holds (w.files root.root) r := by
    intro r hr
    obtain ⟨hr, hroom⟩ := List.mem_filter.mp hr
    rw [decide_eq_true_eq] at hroom
    rcases h.mirror r hr with hpending | hin
    · obtain ⟨e, he, htype, hid⟩ := h.created r hr
      have hlt := (hpending e he htype hid).1
      have hle := hall e he
      omega
    · exact hin root (hroom ▸ hroot) (by rw [hl₀]; rfl)
  refine ⟨l, hl, ?_, fun r hr => (hholds r hr).again hl⟩
  have hof : ∀ r ∈ w.server.list roomId, l.filter (madeOf r.ruleId) = translated r := by
    intro r hr
    rw [translated, (hholds r hr).2 l hl]
  have hsub : ((w.server.list roomId).map (·.ruleId)).Sublist (ids w) :=
    List.filter_sublist.map _
  have hperm := perm_foreign (h.nodup.sublist hsub) (fun i hi => h.long i (hsub.subset hi)) l
  have hsame : foreign ((w.server.list roomId).map (·.ruleId)) l = l₀ := by
    rw [← hforeign]
    refine List.filter_congr fun x hx => congrArg Bool.not (Bool.eq_iff_iff.mpr ?_)
    rw [List.any_eq_true, List.any_eq_true]
    constructor
    · rintro ⟨i, hi, hmade⟩
      exact ⟨i, hsub.subset hi, hmade⟩
    · rintro ⟨i, hi, hmade⟩
      obtain ⟨r, hr, rfl⟩ := List.mem_map.mp hi
      have hroom := hrooms x hx r hr hmade
      exact ⟨r.ruleId, List.mem_map_of_mem (List.mem_filter.mpr ⟨hr, by simpa using hroom⟩), hmade⟩
  rw [hsame, List.flatMap_map] at hperm
  refine hperm.trans (List.Perm.of_eq (congrArg _ ?_))
  exact List.flatMap_congr hof

/-! ### The server -/

lemma nextSequence_concat {events : List SyncEvent} {e : SyncEvent}
    (he : e.sequence = nextSequence events) :
    nextSequence (events ++ [e]) = nextSequence events + 1 := by
  rw [nextSequence, List.getLast?_concat, Option.map_some, Option.getD_some, he]

lemma sorted_concat {events : List SyncEvent} {e : SyncEvent}
    (h : events.Pairwise fun e e' => e.sequence < e'.sequence)
    (he : e.sequence = nextSequence events) :
    (events ++ [e]).Pairwise fun e e' => e.sequence < e'.sequence := by
  refine List.pairwise_append.mpr ⟨h, List.pairwise_singleton _ _, fun x hx y hy => ?_⟩
  rw [List.mem_singleton.mp hy, he]
  exact lt_nextSequence h hx

/-- Another event changes nothing. -/
lemma Inv.appended (h : Inv roots before w) {server : Server} {e : SyncEvent}
    (hrules : server.rules = w.server.rules) (hevents : server.events = w.server.events ++ [e])
    (hsequence : e.sequence = nextSequence w.server.events) (htype : e.eventType ≠ "rule.created") :
    Inv roots before { w with server } := by
  have hnext := nextSequence_concat hsequence
  have hids : ids { w with server } = ids w := congrArg (List.map AgentRule.ruleId) hrules
  have hcreated : ∀ x ∈ server.events, x.eventType = "rule.created" → x ∈ w.server.events := by
    intro x hx hx'
    rw [hevents] at hx
    rcases List.mem_append.mp hx with hx | hx
    · exact hx
    · rw [List.mem_singleton.mp hx] at hx'
      exact absurd hx' htype
  have hsub : w.server.events ⊆ server.events := by
    rw [hevents]
    exact List.subset_append_left _ _
  constructor
  case nodup => exact hids.symm ▸ h.nodup
  case long => exact hids.symm ▸ h.long
  case sorted => exact hevents ▸ sorted_concat h.sorted hsequence
  case created =>
    intro r hr
    obtain ⟨x, hx, hcr⟩ := h.created r (hrules ▸ hr)
    exact ⟨x, hsub hx, hcr⟩
  case known =>
    intro x hx hx'
    obtain ⟨r, hr, hid⟩ := h.known x (hcreated x hx hx') hx'
    exact ⟨r, hrules.symm ▸ hr, hid⟩
  case cursor =>
    have := h.cursor
    dsimp only
    rw [hevents, hnext]
    omega
  case page =>
    intro p hp
    obtain ⟨hlast, hahead⟩ := h.page p hp
    refine ⟨?_, fun x hx => hsub (hahead x hx)⟩
    dsimp only
    rw [hevents, hnext]
    omega
  case told =>
    intro p hp v hv
    obtain ⟨r, hr, htold⟩ := h.told p hp v hv
    exact ⟨r, hrules.symm ▸ hr, htold⟩
  case merged => exact h.merged
  case folder =>
    intro roomId root l₀ hroot hl₀
    obtain ⟨l, hl, hforeign, hrooms⟩ := h.folder roomId root l₀ hroot hl₀
    refine ⟨l, hl, ?_, fun x hx r hr => hrooms x hx r (hrules ▸ hr)⟩
    rw [hids, hforeign]
  case mirror =>
    intro r hr
    rcases h.mirror r (hrules ▸ hr) with hpending | hin
    · exact .inl fun x hx hx' hid => hpending x (hcreated x hx hx') hx' hid
    · exact .inr hin

lemma not_madeOf_default {ruleId : String} (hlen : ruleId.length = 36) :
    ∀ x ∈ defaultRuleSet.rules, madeOf ruleId x = false := by
  intro x hx
  rw [← Bool.not_eq_true]
  intro hmade
  have hle := (isPrefix_of_madeOf hmade).length_le
  have hshort : ∀ y ∈ defaultRuleSet.rules, y.id.toList.length < 36 := by decide
  have := hshort x hx
  have hlen' : ruleId.toList.length = 36 := hlen
  omega

lemma not_madeOf_fresh {ruleId : String} (hfresh : w.Fresh roots ruleId) {roomId : String}
    {root : ManagedRoot} (hroot : findByRoom roots roomId = some root) {l : List Rule}
    (hl : rulesIn (w.files root.root) = some l) : ∀ x ∈ l, madeOf ruleId x = false := by
  have hnamed := hfresh.2.2 root (List.mem_of_find?_eq_some hroot)
  cases hfile : w.files root.root with
  | absent =>
    rw [hfile] at hl
    cases hl
    exact not_madeOf_default hfresh.1
  | unreadable message =>
    rw [hfile] at hl
    cases hl
  | malformed message =>
    rw [hfile] at hl
    cases hl
  | parsed set =>
    rw [hfile] at hl hnamed
    cases hl
    intro x hx
    rw [← Bool.not_eq_true]
    exact List.any_eq_false.mp hnamed x hx

/-- A new rule waits for its event to be taken. -/
lemma Inv.inserted (h : Inv roots before w) {r : AgentRule} (hfresh : w.Fresh roots r.ruleId)
    (stamp : Stamp) (payload : List (String × Contracts.Json)) :
    Inv roots before { w with server := w.server.insertRule r stamp payload } := by
  obtain ⟨e, hevents, hsequence, htype, hid, hroom⟩ : ∃ e,
      (w.server.insertRule r stamp payload).events = w.server.events ++ [e] ∧
        e.sequence = nextSequence w.server.events ∧ e.eventType = "rule.created" ∧
        e.ruleId = r.ruleId ∧ e.roomId = some r.roomId := ⟨_, rfl, rfl, rfl, rfl, rfl⟩
  have hrules : (w.server.insertRule r stamp payload).rules = w.server.rules ++ [r] := rfl
  generalize w.server.insertRule r stamp payload = server at hevents hrules
  have hnext := nextSequence_concat hsequence
  have hsub : w.server.events ⊆ server.events := by
    rw [hevents]
    exact List.subset_append_left _ _
  have hmem : ∀ r' ∈ w.server.rules, r' ∈ server.rules := fun r' hr' =>
    hrules ▸ List.mem_append_left _ hr'
  have hids : ids { w with server } = ids w ++ [r.ruleId] := by
    rw [ids, hrules, List.map_append]
    rfl
  constructor
  case nodup =>
    rw [hids]
    refine List.nodup_append.mpr ⟨h.nodup, List.nodup_singleton _, fun i hi j hj hij => ?_⟩
    obtain ⟨r', hr', rfl⟩ := List.mem_map.mp hi
    exact hfresh.2.1 r' hr' (hij.trans (List.mem_singleton.mp hj))
  case long =>
    intro i hi
    rw [hids] at hi
    rcases List.mem_append.mp hi with hi | hi
    · exact h.long i hi
    · rw [List.mem_singleton.mp hi]
      exact hfresh.1
  case sorted => exact hevents ▸ sorted_concat h.sorted hsequence
  case created =>
    intro r' hr'
    dsimp only at hr'
    rw [hrules] at hr'
    rcases List.mem_append.mp hr' with hr' | hr'
    · obtain ⟨x, hx, hcr⟩ := h.created r' hr'
      exact ⟨x, hsub hx, hcr⟩
    · rw [List.mem_singleton.mp hr']
      exact ⟨e, hevents ▸ List.mem_append_right _ List.mem_cons_self, htype, hid⟩
  case known =>
    intro x hx hx'
    dsimp only at hx
    rw [hevents] at hx
    rcases List.mem_append.mp hx with hx | hx
    · obtain ⟨r', hr', hknown⟩ := h.known x hx hx'
      exact ⟨r', hmem r' hr', hknown⟩
    · rw [List.mem_singleton.mp hx]
      exact ⟨r, hrules ▸ List.mem_append_right _ List.mem_cons_self, hid.symm, hroom⟩
  case cursor =>
    have := h.cursor
    dsimp only
    rw [hevents, hnext]
    omega
  case page =>
    intro p hp
    obtain ⟨hlast, hahead⟩ := h.page p hp
    refine ⟨?_, fun x hx => hsub (hahead x hx)⟩
    dsimp only
    rw [hevents, hnext]
    omega
  case told =>
    intro p hp v hv
    obtain ⟨r', hr', htold⟩ := h.told p hp v hv
    exact ⟨r', hmem r' hr', htold⟩
  case merged => exact h.merged
  case folder =>
    intro roomId root l₀ hroot hl₀
    obtain ⟨l, hl, hforeign, hrooms⟩ := h.folder roomId root l₀ hroot hl₀
    have hnot := not_madeOf_fresh hfresh hroot hl
    refine ⟨l, hl, ?_, fun x hx r' hr' hmade => ?_⟩
    · rw [← hforeign, hids]
      refine List.filter_congr fun x hx => ?_
      rw [List.any_append, List.any_cons, hnot x hx, List.any_nil, Bool.or_false, Bool.or_false]
    · dsimp only at hr'
      rw [hrules] at hr'
      rcases List.mem_append.mp hr' with hr' | hr'
      · exact hrooms x hx r' hr' hmade
      · rw [List.mem_singleton.mp hr', hnot x hx] at hmade
        cases hmade
  case mirror =>
    intro r' hr'
    dsimp only at hr'
    rw [hrules] at hr'
    rcases List.mem_append.mp hr' with hr' | hr'
    · rcases h.mirror r' hr' with hpending | hin
      · refine .inl fun x hx hx' hxid => ?_
        dsimp only at hx
        rw [hevents] at hx
        rcases List.mem_append.mp hx with hx | hx
        · exact hpending x hx hx' hxid
        · rw [List.mem_singleton.mp hx, hid] at hxid
          exact absurd hxid.symm (hfresh.2.1 r' hr')
      · exact .inr hin
    · rw [List.mem_singleton.mp hr']
      refine .inl fun x hx hx' hxid => ?_
      dsimp only at hx
      rw [hevents] at hx
      rcases List.mem_append.mp hx with hx | hx
      · obtain ⟨r₁, hr₁, hknown, -⟩ := h.known x hx hx'
        exact absurd (hknown.trans hxid) (hfresh.2.1 r₁ hr₁)
      · rw [List.mem_singleton.mp hx, hsequence]
        exact ⟨h.cursor, fun p hp => .inl (.inr (h.page p hp).1)⟩

lemma eq_of_ruleId (h : Inv roots before w) {r r' : AgentRule} (hr : r ∈ w.server.rules)
    (hr' : r' ∈ w.server.rules) (hid : r.ruleId = r'.ruleId) : r = r' :=
  List.inj_on_of_nodup_map h.nodup hr hr' hid

lemma Untaken.pending {ruleId : String} (h : Untaken w ruleId) : Pending w ruleId := by
  intro e he htype hid
  obtain ⟨hlt, hall⟩ := h e he htype hid
  exact ⟨hlt, fun p hp => .inl (hall p hp).1⟩

/-- A change of a rule that is harmless. -/
lemma Inv.changed (h : Inv roots before w) {r : AgentRule} (hr : r ∈ w.server.rules)
    (body : UpdateRule)
    (hharmless : incomingRules (body.set r) = incomingRules r ∨ Untaken w r.ruleId) :
    Inv roots before { w with server := { w.server with
      rules := w.server.rules.map fun x => if x.ruleId = r.ruleId then body.set r else x } } := by
  -- Every row keeps its id and its room.
  have hrow : ∀ x ∈ w.server.rules,
      (if x.ruleId = r.ruleId then body.set r else x).ruleId = x.ruleId ∧
        (if x.ruleId = r.ruleId then body.set r else x).roomId = x.roomId := by
    intro x hx
    split
    · next hid => exact ⟨hid.symm, (congrArg AgentRule.roomId (eq_of_ruleId h hx hr hid)).symm⟩
    · exact ⟨rfl, rfl⟩
  generalize hchange : (fun x : AgentRule => if x.ruleId = r.ruleId then body.set r else x) = change
  have hrow : ∀ x ∈ w.server.rules, (change x).ruleId = x.ruleId ∧ (change x).roomId = x.roomId :=
    hchange ▸ hrow
  have hids : ids { w with server := { w.server with rules := w.server.rules.map change } } =
      ids w := by
    rw [ids, List.map_map]
    exact List.map_congr_left fun x hx => (hrow x hx).1
  constructor
  case nodup => exact hids.symm ▸ h.nodup
  case long => exact hids.symm ▸ h.long
  case sorted => exact h.sorted
  case created =>
    intro x hx
    obtain ⟨y, hy, rfl⟩ := List.mem_map.mp hx
    obtain ⟨e, he, htype, hid⟩ := h.created y hy
    exact ⟨e, he, htype, hid.trans (hrow y hy).1.symm⟩
  case known =>
    intro e he htype
    obtain ⟨y, hy, hid, hroom⟩ := h.known e he htype
    exact ⟨change y, List.mem_map_of_mem hy, (hrow y hy).1.trans hid,
      hroom.trans (congrArg some (hrow y hy).2.symm)⟩
  case cursor => exact h.cursor
  case page => exact h.page
  case told =>
    intro p hp v hv
    obtain ⟨y, hy, hid, hroom, hin⟩ := h.told p hp v hv
    refine ⟨change y, List.mem_map_of_mem hy, (hrow y hy).1.trans hid,
      (hrow y hy).2.trans hroom, ?_⟩
    rw [← hchange]
    dsimp only
    split
    · next hyr =>
      obtain rfl := eq_of_ruleId h hy hr hyr
      rcases hharmless with hsame | huntaken
      · exact hsame.trans hin
      · obtain ⟨e, he, htype, heid⟩ := h.created y hy
        exact absurd hid.symm (((huntaken e he htype heid).2 p hp).2 v hv)
    · exact hin
  case merged => exact h.merged
  case folder =>
    intro roomId root l₀ hroot hl₀
    obtain ⟨l, hl, hforeign, hrooms⟩ := h.folder roomId root l₀ hroot hl₀
    refine ⟨l, hl, by rw [hids, hforeign], fun x hx r' hr' hmade => ?_⟩
    obtain ⟨y, hy, rfl⟩ := List.mem_map.mp hr'
    rw [(hrow y hy).1] at hmade
    exact (hrow y hy).2.trans (hrooms x hx y hy hmade)
  case mirror =>
    intro x hx
    obtain ⟨y, hy, rfl⟩ := List.mem_map.mp hx
    rw [(hrow y hy).1]
    rcases h.mirror y hy with hpending | hin
    · exact .inl hpending
    · by_cases hyr : y.ruleId = r.ruleId
      · obtain rfl := eq_of_ruleId h hy hr hyr
        have hy' : change y = body.set y := by rw [← hchange]; exact if_pos rfl
        rcases hharmless with hsame | huntaken
        · refine .inr fun root hroot hbefore => ?_
          rw [hy'] at hroot ⊢
          obtain ⟨hreadable, hholds⟩ := hin root hroot hbefore
          exact ⟨hreadable, fun l hl => hsame.trans (hholds l hl)⟩
        · exact .inl huntaken.pending
      · have hy' : change y = y := by rw [← hchange]; exact if_neg hyr
        rw [hy']
        exact .inr hin

/-! ### The replays -/

/-- Replays that end, or have not begun to ask, take nothing away. -/
lemma Inv.withReplays (h : Inv roots before w) {replays : List Replay}
    (hreplays : ∀ p ∈ replays, p ∈ w.replays ∨ p = ⟨w.cursor, .asking⟩) :
    Inv roots before { w with replays } := by
  constructor
  case nodup => exact h.nodup
  case long => exact h.long
  case sorted => exact h.sorted
  case created => exact h.created
  case known => exact h.known
  case cursor => exact h.cursor
  case page =>
    intro p hp
    rcases hreplays p hp with hp | rfl
    · exact h.page p hp
    · exact ⟨h.cursor, fun e he => absurd he List.not_mem_nil⟩
  case told =>
    intro p hp v hv
    rcases hreplays p hp with hp | rfl
    · exact h.told p hp v hv
    · cases hv
  case merged =>
    intro p hp
    rcases hreplays p hp with hp | rfl
    · exact h.merged p hp
    · trivial
  case folder => exact h.folder
  case mirror =>
    intro r hr
    rcases h.mirror r hr with hpending | hin
    · refine .inl fun e he htype hid => ⟨(hpending e he htype hid).1, fun p hp => ?_⟩
      rcases hreplays p hp with hp | rfl
      · exact (hpending e he htype hid).2 p hp
      · exact .inl (.inr (hpending e he htype hid).1)
    · exact .inr hin

/-- A replay goes on, and what it has yet to take or to write stays so. -/
lemma Inv.replaced (h : Inv roots before w) {i : ℕ} {p p' : Replay}
    (hp : w.replays[i]? = some p)
    (hpage : p'.last < nextSequence w.server.events ∧ ∀ e ∈ ahead p', e ∈ w.server.events)
    (htold : ∀ v ∈ inHand p', Told w v) (hmerged : MergedWell roots p')
    (hawaits : ∀ e ∈ w.server.events, e.eventType = "rule.created" →
      (Awaits e.sequence p ∨ ∃ v ∈ inHand p, v.ruleId = e.ruleId) →
        Awaits e.sequence p' ∨ ∃ v ∈ inHand p', v.ruleId = e.ruleId) :
    Inv roots before { w with replays := w.replays.set i p' } := by
  have hset : ∀ q ∈ w.replays.set i p', q ∈ w.replays ∨ q = p' := fun q hq =>
    List.mem_or_eq_of_mem_set hq
  constructor
  case nodup => exact h.nodup
  case long => exact h.long
  case sorted => exact h.sorted
  case created => exact h.created
  case known => exact h.known
  case cursor => exact h.cursor
  case page =>
    intro q hq
    rcases hset q hq with hq | rfl
    · exact h.page q hq
    · exact hpage
  case told =>
    intro q hq v hv
    rcases hset q hq with hq | rfl
    · exact h.told q hq v hv
    · exact htold v hv
  case merged =>
    intro q hq
    rcases hset q hq with hq | rfl
    · exact h.merged q hq
    · exact hmerged
  case folder => exact h.folder
  case mirror =>
    intro r hr
    rcases h.mirror r hr with hpending | hin
    · refine .inl fun e he htype hid => ⟨(hpending e he htype hid).1, fun q hq => ?_⟩
      rcases hset q hq with hq | rfl
      · exact (hpending e he htype hid).2 q hq
      · have hawait := (hpending e he htype hid).2 p (List.mem_of_getElem? hp)
        rw [← hid] at hawait ⊢
        exact hawaits e he htype hawait
    · exact .inr hin

/-- Everything behind a page is behind its last event. -/
lemma awaits_page {events : List SyncEvent} {after : ℕ}
    (h : events.Pairwise fun e e' => e.sequence < e'.sequence) {e : SyncEvent} (he : e ∈ events)
    (hafter : after < e.sequence) (limit : ℕ) :
    e ∈ (events.filter fun e => after < e.sequence).take limit ∨
      ((((events.filter fun e => after < e.sequence).take limit).getLast?.map
        (·.sequence)).getD after) < e.sequence := by
  have hmem : e ∈ events.filter fun e => after < e.sequence :=
    List.mem_filter.mpr ⟨he, decide_eq_true hafter⟩
  have hsorted := h.sublist (List.filter_sublist (p := fun e => after < e.sequence))
  generalize events.filter (fun e => after < e.sequence) = found at hmem hsorted
  rw [← List.take_append_drop limit found] at hmem hsorted
  rcases List.mem_append.mp hmem with hmem | hmem
  · exact .inl hmem
  · refine .inr ?_
    cases hlast : (found.take limit).getLast? with
    | none => exact hafter
    | some x =>
      exact (List.pairwise_append.mp hsorted).2.2 x (List.mem_of_getLast? hlast) e hmem

/-- Two events with one sequence are one. -/
lemma Inv.eq_of_sequence (h : Inv roots before w) {e e' : SyncEvent} (he : e ∈ w.server.events)
    (he' : e' ∈ w.server.events) (hs : e.sequence = e'.sequence) : e = e' := by
  have hnodup : (w.server.events.map (·.sequence)).Nodup :=
    (List.pairwise_map.mpr h.sorted).imp fun hlt => Nat.ne_of_lt hlt
  exact List.inj_on_of_nodup_map hnodup he he' hs

/-- The folders of two rooms are two. -/
lemma room_unique (hroots : WellBound roots) {a b : String} {r r' : ManagedRoot}
    (ha : findByRoom roots a = some r) (hb : findByRoom roots b = some r')
    (hfolder : r.root = r'.root) : a = b ∧ r = r' := by
  obtain ⟨k, hk⟩ := mem_values.mp (List.mem_of_find?_eq_some ha)
  obtain ⟨k', hk'⟩ := mem_values.mp (List.mem_of_find?_eq_some hb)
  have hkeys : k = k' := by
    by_contra hne
    refine (hroots.apart hk hk' hne).1 ?_
    rw [startsWith, hfolder]
  subst hkeys
  cases hk.symm.trans hk'
  refine ⟨?_, rfl⟩
  have hconsistent := hroots.consistent hk
  have hra := List.find?_some ha
  have hrb := List.find?_some hb
  simp only [holdsRoom, decide_eq_true_eq] at hra hrb
  rcases hra with hra | ⟨hda, hra⟩ <;> rcases hrb with hrb | ⟨hdb, hrb⟩
  · exact Option.some.inj (hra.symm.trans hrb)
  · have hactive := hconsistent.mp (by rw [hra]; rfl)
    rw [hdb] at hactive
    cases hactive
  · have hactive := hconsistent.mp (by rw [hrb]; rfl)
    rw [hda] at hactive
    cases hactive
  · exact Option.some.inj (hra.symm.trans hrb)

/-- A page is fetched. -/
lemma Inv.asked (h : Inv roots before w) {i : ℕ} {p : Replay} (hp : w.replays[i]? = some p)
    (hphase : p.phase = .asking) (limit : ℕ) :
    Inv roots before { w with
      replays := w.replays.set i
        ⟨((w.server.replay p.last limit).getLast?.map (·.sequence)).getD p.last,
          .taking (w.server.replay p.last limit)⟩ } := by
  have hsub : ∀ e ∈ w.server.replay p.last limit, e ∈ w.server.events := fun e he =>
    List.mem_of_mem_filter (List.mem_of_mem_take he)
  have hlast := (h.page p (List.mem_of_getElem? hp)).1
  refine h.replaced hp ⟨?_, hsub⟩ (fun v hv => by cases hv) trivial fun e he htype hawait => ?_
  · cases hl : (w.server.replay p.last limit).getLast? with
    | none => exact hlast
    | some x => exact lt_nextSequence h.sorted (hsub x (List.mem_of_getLast? hl))
  · have hbehind : p.last < e.sequence := by
      rcases hawait with (hawait | hawait) | ⟨v, hv, -⟩
      · rw [ahead, hphase] at hawait
        cases hawait
      · exact hawait
      · rw [inHand, hphase] at hv
        cases hv
    refine .inl ?_
    rcases awaits_page h.sorted he hbehind limit with hmem | hlt
    · exact .inl (List.mem_map_of_mem hmem)
    · exact .inr hlt

/-- An event that made no rule is passed by. -/
lemma Inv.passed (h : Inv roots before w) {i : ℕ} {p : Replay} (hp : w.replays[i]? = some p)
    {e : SyncEvent} {events : List SyncEvent} (hphase : p.phase = .taking (e :: events))
    (hnone : e.eventType ≠ "rule.created") :
    Inv roots before { w with replays := w.replays.set i ⟨p.last, .taking events⟩ } := by
  obtain ⟨hlast, hahead⟩ := h.page p (List.mem_of_getElem? hp)
  rw [ahead, hphase] at hahead
  refine h.replaced hp ⟨hlast, fun x hx => hahead x (List.mem_cons_of_mem e hx)⟩
    (fun v hv => by cases hv) trivial fun x hx htype hawait => .inl ?_
  rcases hawait with (hawait | hawait) | ⟨v, hv, -⟩
  · rw [ahead, hphase, List.map_cons] at hawait
    rcases List.mem_cons.mp hawait with hs | hawait
    · rw [h.eq_of_sequence hx (hahead e List.mem_cons_self) hs] at htype
      exact absurd htype hnone
    · exact .inl hawait
  · exact .inr hawait
  · rw [inHand, hphase] at hv
    cases hv

/-- The rule of a created event is asked for. -/
lemma Inv.listed (h : Inv roots before w) {i : ℕ} {p : Replay} (hp : w.replays[i]? = some p)
    {e : SyncEvent} {events : List SyncEvent} (hphase : p.phase = .taking (e :: events))
    {r : AgentRule} (hr : r ∈ w.server.rules) (hid : r.ruleId = e.ruleId) :
    Inv roots before { w with replays := w.replays.set i ⟨p.last, .listed r events⟩ } := by
  obtain ⟨hlast, hahead⟩ := h.page p (List.mem_of_getElem? hp)
  rw [ahead, hphase] at hahead
  refine h.replaced hp ⟨hlast, fun x hx => hahead x (List.mem_cons_of_mem e hx)⟩
    (fun v hv => ?_) trivial fun x hx htype hawait => ?_
  · cases hv
    exact ⟨r, hr, rfl, rfl, rfl⟩
  · rcases hawait with (hawait | hawait) | ⟨v, hv, -⟩
    · rw [ahead, hphase, List.map_cons] at hawait
      rcases List.mem_cons.mp hawait with hs | hawait
      · rw [h.eq_of_sequence hx (hahead e List.mem_cons_self) hs]
        exact .inr ⟨r, rfl, hid⟩
      · exact .inl (.inl hawait)
    · exact .inl (.inr hawait)
    · rw [inHand, hphase] at hv
      cases hv

/-- The rule is merged. -/
lemma Inv.merges (h : Inv roots before w) {i : ℕ} {p : Replay} (hp : w.replays[i]? = some p)
    {v : AgentRule} {events : List SyncEvent} (hphase : p.phase = .listed v events)
    {root : ManagedRoot} {set : RuleSet} (hroot : findByRoom roots v.roomId = some root)
    (hset : mergedRules (rulesPath root) (w.files root.root) v = .ok set) :
    Inv roots before { w with
      replays := w.replays.set i ⟨p.last, .merged root (w.files root.root) set v events⟩ } := by
  obtain ⟨hlast, hahead⟩ := h.page p (List.mem_of_getElem? hp)
  have htold := h.told p (List.mem_of_getElem? hp)
  rw [ahead, hphase] at hahead
  rw [inHand, hphase] at htold
  refine h.replaced hp ⟨hlast, hahead⟩ htold ⟨hroot, hset⟩ fun x hx htype hawait => ?_
  rcases hawait with (hawait | hawait) | hhand
  · rw [ahead, hphase] at hawait
    exact .inl (.inl hawait)
  · exact .inl (.inr hawait)
  · rw [inHand, hphase] at hhand
    exact .inr hhand

/-- The cursor is saved. -/
lemma Inv.advanced (h : Inv roots before w) {i : ℕ} {p : Replay} (hp : w.replays[i]? = some p)
    (hphase : p.phase = .taking []) :
    Inv roots before { w with cursor := p.last, replays := w.replays.eraseIdx i } := by
  have hmem := List.mem_of_getElem? hp
  constructor
  case nodup => exact h.nodup
  case long => exact h.long
  case sorted => exact h.sorted
  case created => exact h.created
  case known => exact h.known
  case cursor => exact (h.page p hmem).1
  case page => exact fun q hq => h.page q (List.mem_of_mem_eraseIdx hq)
  case told => exact fun q hq => h.told q (List.mem_of_mem_eraseIdx hq)
  case merged => exact fun q hq => h.merged q (List.mem_of_mem_eraseIdx hq)
  case folder => exact h.folder
  case mirror =>
    intro r hr
    rcases h.mirror r hr with hpending | hin
    · refine .inl fun e he htype hid => ⟨?_, fun q hq =>
        (hpending e he htype hid).2 q (List.mem_of_mem_eraseIdx hq)⟩
      rcases (hpending e he htype hid).2 p hmem with (hawait | hawait) | ⟨v, hv, -⟩
      · rw [ahead, hphase] at hawait
        cases hawait
      · exact hawait
      · rw [inHand, hphase] at hv
        cases hv
    · exact .inr hin

/-- The merge takes nothing from a folder that it had before, and brings rules of its room. -/
lemma kept_merged (h : Inv roots before w) {path : String} {file : RulesFile} {v : AgentRule}
    {set : RuleSet} (htold : Told w v) (hset : mergedRules path file v = .ok set) {l : List Rule}
    (hl : rulesIn file = some l) :
    foreign (ids w) set.rules = foreign (ids w) l ∧
      ((∀ x ∈ l, ∀ r ∈ w.server.rules, madeOf r.ruleId x = true → r.roomId = v.roomId) →
        ∀ x ∈ set.rules, ∀ r ∈ w.server.rules, madeOf r.ruleId x = true → r.roomId = v.roomId) := by
  obtain ⟨l', incoming, hl', hin, hrules⟩ := mergedRules_rules hset
  cases hl.symm.trans hl'
  have hmade := (EventReplay.incoming_made hin).2.1
  obtain ⟨r, hr, hid, hroom, -⟩ := htold
  have hmem : v.ruleId ∈ ids w := hid ▸ List.mem_map_of_mem hr
  constructor
  · have hnone : foreign (ids w) incoming = [] := by
      refine List.filter_eq_nil_iff.mpr fun x hx => ?_
      rw [Bool.not_eq_true, Bool.not_eq_false', List.any_eq_true]
      exact ⟨v.ruleId, hmem, hmade x hx⟩
    rw [hrules, foreign, List.filter_append, ← foreign, ← foreign, hnone, List.append_nil, foreign,
      List.filter_filter]
    refine List.filter_congr fun x _ => ?_
    cases hx : madeOf v.ruleId x with
    | false => rw [Bool.not_false, Bool.and_true]
    | true =>
      rw [Bool.not_true, Bool.and_false, eq_comm, Bool.not_eq_false', List.any_eq_true]
      exact ⟨v.ruleId, hmem, hx⟩
  · intro hrooms x hx r' hr' hmade'
    rw [hrules] at hx
    rcases List.mem_append.mp hx with hx | hx
    · exact hrooms x (List.mem_of_mem_filter hx) r' hr' hmade'
    · have hlen : r'.ruleId.length = v.ruleId.length :=
        (h.long _ (List.mem_map_of_mem hr')).trans (h.long _ hmem).symm
      have heq := madeOf_unique hlen hmade' (hmade x hx)
      rw [eq_of_ruleId h hr' hr (heq.trans hid.symm), hroom]

/-- The file is written. -/
lemma Inv.written (h : Inv roots before w) (hroots : WellBound roots) {i : ℕ} {p : Replay}
    (hp : w.replays[i]? = some p) {root : ManagedRoot} {found : RulesFile} {set : RuleSet}
    {v : AgentRule} {events : List SyncEvent} (hphase : p.phase = .merged root found set v events)
    (hfound : w.files root.root = found) :
    Inv roots before { w with
      files := Function.update w.files root.root (.parsed set)
      replays := w.replays.set i ⟨p.last, .taking events⟩ } := by
  have hmem := List.mem_of_getElem? hp
  have hpage := h.page p hmem
  have hhand := h.told p hmem
  have hmerged := h.merged p hmem
  rw [ahead, hphase] at hpage
  rw [inHand, hphase] at hhand
  rw [MergedWell, hphase] at hmerged
  obtain ⟨hroot, hset⟩ := hmerged
  have htold : Told w v := hhand v rfl
  rw [← hfound] at hset
  have hmemset : ∀ q ∈ w.replays.set i ⟨p.last, .taking events⟩,
      q ∈ w.replays ∨ q = ⟨p.last, .taking events⟩ := fun q hq => List.mem_or_eq_of_mem_set hq
  constructor
  case nodup => exact h.nodup
  case long => exact h.long
  case sorted => exact h.sorted
  case created => exact h.created
  case known => exact h.known
  case cursor => exact h.cursor
  case page =>
    intro q hq
    rcases hmemset q hq with hq | rfl
    · exact h.page q hq
    · exact hpage
  case told =>
    intro q hq u hu
    rcases hmemset q hq with hq | rfl
    · exact h.told q hq u hu
    · cases hu
  case merged =>
    intro q hq
    rcases hmemset q hq with hq | rfl
    · exact h.merged q hq
    · trivial
  case folder =>
    intro roomId root' l₀ hroot' hl₀
    obtain ⟨l, hl, hforeign, hrooms⟩ := h.folder roomId root' l₀ hroot' hl₀
    by_cases hfolder : root'.root = root.root
    · obtain ⟨rfl, rfl⟩ := room_unique hroots hroot' hroot hfolder
      obtain ⟨hkept, hroom⟩ := kept_merged h htold hset hl
      refine ⟨set.rules, ?_, hkept.trans hforeign, hroom hrooms⟩
      dsimp only
      rw [Function.update_self]
      rfl
    · refine ⟨l, ?_, hforeign, hrooms⟩
      dsimp only
      rw [Function.update_of_ne hfolder]
      exact hl
  case mirror =>
    intro r hr
    obtain ⟨r', hr', hid', hroom', hin'⟩ := htold
    by_cases hid : r.ruleId = v.ruleId
    · obtain rfl := eq_of_ruleId h hr hr' (hid.trans hid'.symm)
      refine .inr fun root' hroot' _ => ?_
      rw [hroom', hroot] at hroot'
      cases hroot'
      dsimp only
      rw [Function.update_self]
      exact holds_merged hset hid hin'
    · rcases h.mirror r hr with hpending | hin
      · refine .inl fun e he htype hide => ⟨(hpending e he htype hide).1, fun q hq => ?_⟩
        rcases hmemset q hq with hq | rfl
        · exact (hpending e he htype hide).2 q hq
        · rcases (hpending e he htype hide).2 p hmem with (hawait | hawait) | ⟨u, hu, hide'⟩
          · rw [ahead, hphase] at hawait
            exact .inl (.inl hawait)
          · exact .inl (.inr hawait)
          · rw [inHand, hphase] at hu
            cases hu
            exact absurd hide'.symm hid
      · refine .inr fun root' hroot' hbefore => ?_
        have hholds := hin root' hroot' hbefore
        by_cases hfolder : root'.root = root.root
        · have hlen : r.ruleId.length = v.ruleId.length :=
            (h.long _ (List.mem_map_of_mem hr)).trans
              (h.long _ (hid' ▸ List.mem_map_of_mem hr')).symm
          dsimp only
          rw [hfolder] at hholds ⊢
          rw [Function.update_self]
          exact hholds.merged hset hid hlen
        · dsimp only
          rw [Function.update_of_ne hfolder]
          exact hholds

/-- **A replay that goes on keeps the invariant** if the file is as it found it. -/
lemma Inv.proceed (h : Inv roots before w) (hroots : WellBound roots) {i : ℕ} {p : Replay}
    (hp : w.replays[i]? = some p) (hfound : AsFound w p) {w' : World}
    (hstep : step roots w (.proceed i) = some w') : Inv roots before w' := by
  have hends : Inv roots before { w with replays := w.replays.eraseIdx i } :=
    h.withReplays fun q hq => .inl (List.mem_of_mem_eraseIdx hq)
  rw [step, hp] at hstep
  dsimp only at hstep
  cases hphase : p.phase with
  | asking =>
    rw [World.proceed, hphase] at hstep
    dsimp only at hstep
    cases hv : validateSyncEvents p.last (w.server.replay p.last 100) with
    | error message =>
      rw [hv] at hstep
      cases hstep
      exact hends
    | ok _ =>
      rw [hv] at hstep
      cases hstep
      exact h.asked hp hphase 100
  | taking events =>
    cases events with
    | nil =>
      rw [World.proceed, hphase] at hstep
      by_cases hback : p.last < w.cursor
      · simp only [if_pos hback] at hstep
        cases hstep
        exact hends
      · simp only [if_neg hback] at hstep
        cases hstep
        exact h.advanced hp hphase
    | cons e events =>
      rw [World.proceed, hphase] at hstep
      by_cases htype : e.eventType = "rule.created"
      · have he := (h.page p (List.mem_of_getElem? hp)).2
        rw [ahead, hphase] at he
        obtain ⟨r, hr, hid, hroom⟩ := h.known e (he e List.mem_cons_self) htype
        have hlist : r ∈ w.server.list r.roomId :=
          List.mem_filter.mpr ⟨hr, decide_eq_true rfl⟩
        simp only [htype, ne_eq, not_true_eq_false, if_false, hroom] at hstep
        cases hrules : listRules w.surroundings r.roomId with
        | error message =>
          rw [hrules] at hstep
          cases hstep
          exact hends
        | ok rules =>
          have hanswer := (EventReplay.listRules_ok.mp hrules).2
          rw [hrules] at hstep
          dsimp only at hstep
          cases hfind : rules.find? fun candidate => candidate.ruleId = e.ruleId with
          | none =>
            rw [hanswer] at hfind
            have hnot := List.find?_eq_none.mp hfind r hlist
            exact absurd (decide_eq_true hid) hnot
          | some rule =>
            rw [hfind] at hstep
            cases hstep
            have hrule := List.mem_of_find?_eq_some hfind
            rw [hanswer] at hrule
            have hruleId := List.find?_some hfind
            rw [decide_eq_true_eq] at hruleId
            exact h.listed hp hphase (List.mem_of_mem_filter hrule) hruleId
      · simp only [ne_eq, htype, not_false_eq_true, if_true] at hstep
        cases hstep
        exact h.passed hp hphase htype
  | listed v events =>
    rw [World.proceed, hphase] at hstep
    dsimp only at hstep
    cases hroot : findByRoom roots v.roomId with
    | none =>
      rw [hroot] at hstep
      cases hstep
      exact hends
    | some root =>
      rw [hroot] at hstep
      dsimp only at hstep
      cases hset : mergedRules (rulesPath root) (w.files root.root) v with
      | error message =>
        rw [hset] at hstep
        cases hstep
        exact hends
      | ok set =>
        rw [hset] at hstep
        cases hstep
        exact h.merges hp hphase hroot hset
  | merged root found set v events =>
    rw [World.proceed, hphase] at hstep
    rw [AsFound, hphase] at hfound
    cases hstep
    exact h.written hroots hp hphase hfound

/-- A confirmation that goes through the first time brings a rule. -/
lemma confirmDraft_ok {s server : Server} {draftId key ruleId : String} {now : ℕ}
    {visible : List AgentRule} {stamps : Stamp × Stamp} {result : RuleDraft × AgentRule}
    (h : s.confirmDraft draftId key now visible ruleId stamps = .ok (result, server)) :
    server = s ∨ ∃ rule payload e, rule.ruleId = ruleId ∧
      server.rules = (s.insertRule rule stamps.1 payload).rules ∧
      server.events = (s.insertRule rule stamps.1 payload).events ++ [e] ∧
      e.sequence = nextSequence (s.insertRule rule stamps.1 payload).events ∧
      e.eventType ≠ "rule.created" := by
  unfold Server.confirmDraft at h
  split at h
  · cases h
  · next draft _ =>
    split at h
    · split at h
      · cases h
      · split at h
        · cases h
        · cases h
          exact .inl rfl
    · cases h
    · cases h
    · split at h <;> cases h
    · split at h
      · cases h
      · split at h
        · cases h
        · cases h
          exact .inr ⟨⟨ruleId, draft.roomId, draft.name, draft.definition,
            nextRulePriority visible draft.roomId, true, 1⟩, _, _, rfl, rfl, rfl, rfl,
            (by decide : "rule.draft.updated" ≠ "rule.created")⟩

/-- **What one step keeps.** -/
lemma Inv.step (h : Inv roots before w) (hroots : WellBound roots) {l : Step} {w' : World}
    (hharmless : Harmless w l) (hstep : RuleEvents.step roots w l = some w') :
    Inv roots before w' := by
  cases l with
  | create roomId body ruleId stamp =>
    rw [RuleEvents.step] at hstep
    split at hstep
    · next hfresh =>
      cases hstep
      unfold Server.create
      split
      · exact h.inserted (r := ⟨ruleId, roomId, body.name, body.definition, body.priority,
          body.enabled, 1⟩) hfresh stamp []
      · exact h
    · cases hstep
  | confirmDraft draftId key now visible ruleId stamps =>
    rw [RuleEvents.step] at hstep
    split at hstep
    · next hfresh =>
      cases hstep
      cases hconfirm : w.server.confirmDraft draftId key now visible ruleId stamps with
      | error e => exact h
      | ok result =>
        obtain ⟨result, server⟩ := result
        rcases confirmDraft_ok hconfirm with rfl | ⟨rule, payload, e, rfl, hrules, hevents, hs, ht⟩
        · exact h
        · exact (h.inserted hfresh stamps.1 payload).appended hrules hevents hs ht
    · cases hstep
  | update ruleId body stamp =>
    cases hstep
    unfold Server.update
    cases hfind : w.server.rules.find? fun r => r.ruleId = ruleId ∧ r.roomId ∈ w.server.rooms with
    | none => exact h
    | some current =>
      dsimp only
      by_cases hversion : current.version = body.version
      · rw [if_pos hversion]
        have hcurrent := List.mem_of_find?_eq_some hfind
        have hid := List.find?_some hfind
        rw [decide_eq_true_eq] at hid
        obtain ⟨rfl, -⟩ := hid
        exact (h.changed hcurrent body (hharmless current hcurrent rfl hversion)).appended rfl rfl
          rfl (by decide : "rule.updated" ≠ "rule.created")
      · rw [if_neg hversion]
        exact h
  | append stamp eventType aggregateType aggregateId roomId payload =>
    rw [RuleEvents.step] at hstep
    split at hstep
    · cases hstep
    · next htype =>
      cases hstep
      exact h.appended rfl rfl rfl fun hcreated => htype (.inl hcreated)
  | begin =>
    cases hstep
    refine h.withReplays fun p hp => ?_
    rcases List.mem_append.mp hp with hp | hp
    · exact .inl hp
    · exact .inr (List.mem_singleton.mp hp)
  | proceed i =>
    cases hp : w.replays[i]? with
    | none =>
      rw [RuleEvents.step, hp] at hstep
      cases hstep
    | some p => exact h.proceed hroots hp (hharmless p hp) hstep
  | fail i left =>
    cases hp : w.replays[i]? with
    | none =>
      rw [RuleEvents.step, hp] at hstep
      cases hstep
    | some p =>
      rw [RuleEvents.step, hp] at hstep
      cases hstep
      have hleaves := hharmless p hp
      have hsame : w.fail p left = w := by
        unfold LeavesFile at hleaves
        unfold World.fail
        split
        · next root _ _ _ _ file hphase =>
          rw [hphase] at hleaves
          rw [hleaves, Function.update_eq_self]
        · rfl
      rw [hsame]
      exact h.withReplays fun q hq => .inl (List.mem_of_mem_eraseIdx hq)
  | restart =>
    cases hstep
    exact h.withReplays fun q hq => absurd hq List.not_mem_nil

lemma inv_start (rooms : List String) (drafts : List RuleDraft) :
    Inv roots before (.start rooms drafts before) where
  nodup := List.nodup_nil
  long := fun i hi => absurd hi List.not_mem_nil
  sorted := List.Pairwise.nil
  created := fun r hr => absurd hr List.not_mem_nil
  known := fun e he => absurd he List.not_mem_nil
  cursor := Nat.zero_lt_one
  page := fun p hp => absurd hp List.not_mem_nil
  told := fun p hp => absurd hp List.not_mem_nil
  merged := fun p hp => absurd hp List.not_mem_nil
  folder := by
    intro roomId root l₀ _ hl₀
    refine ⟨l₀, hl₀, ?_, fun x _ r hr => absurd hr List.not_mem_nil⟩
    exact List.filter_eq_self.mpr fun x _ => rfl
  mirror := fun r hr => absurd hr List.not_mem_nil

end Invariant

/-- **Local rules follow the server's**: in a run of harmless steps the file of every folder has,
once every event has been replayed, what it had before and the rules of its room. -/
theorem mirrored_of_harmless {roots : Roots} (hroots : WellBound roots) {rooms : List String}
    {drafts : List RuleDraft} {before : String → RulesFile} {ls : List Step} {w : World}
    (hr : run (step roots) (.start rooms drafts before) ls = some w)
    (hok : Meets (step roots) Harmless (.start rooms drafts before) ls) (hall : AllReplayed w) :
    Mirrored roots before w :=
  (Machine.run_invariant (fun h hok hstep => h.step hroots hok hstep) (inv_start rooms drafts) hok
    hr).mirrored hall

/-! ### Samples -/

/-- A folder that is bound to a room. -/
def inbox : ManagedRoot :=
  { ManagedRoot.new "root-1" "/home/inbox" "inbox" 1 with
    roomId := some "room-1", roomBindingStatus := .active }

def inboxRoots : Roots := (∅ : Roots).insert "root-1" inbox

def noRules : String → RulesFile := fun _ => .parsed ⟨CURRENT_RULES_VERSION, []⟩

/-- Bills go to a folder. -/
def sampleBody : CreateRule :=
  ⟨"Bills", .obj [("conditions", .arr [.obj [("field", .str "name"),
      ("operator", .str "STARTS_WITH"), ("value", .str "Bill")]]),
    ("action", .obj [("type", .str "MOVE"), ("destinationTemplate", .str "bills")])], 10, true⟩

def sampleRuleId : String := "11111111-1111-4111-8111-111111111111"

def sampleStamp : Stamp := ⟨"event", "2026-01-01T00:00:00.000Z", some "device-1"⟩

/-- A rule is created and replayed. -/
def createdAndReplayed : List Step :=
  [.create "room-1" sampleBody sampleRuleId sampleStamp, .begin, .proceed 0, .proceed 0, .proceed 0,
    .proceed 0, .proceed 0]

/-- Then it is put behind others, and that is replayed, too. -/
def changedLater : List Step :=
  createdAndReplayed ++ [.update sampleRuleId ⟨none, none, some 20, none, 1⟩ sampleStamp, .begin,
    .proceed 0, .proceed 0, .proceed 0]

/-- Instead it gets another name. -/
def createdAndRenamed : List Step :=
  createdAndReplayed ++ [.update sampleRuleId ⟨some "Paid bills", none, none, none, 1⟩ sampleStamp,
    .begin, .proceed 0, .proceed 0, .proceed 0]

lemma inbox_wellBound : WellBound inboxRoots := by
  have hnone : ∀ k : String, (∅ : Roots)[k]? = none := fun _ => Std.ExtTreeMap.getElem?_empty
  have hempty : WellBound ∅ :=
    { keyed := fun {k _} hk => by cases (hnone k).symm.trans hk
      apart := fun {a _ _ _} ha => by cases (hnone a).symm.trans ha
      consistent := fun {k _} hk => by cases (hnone k).symm.trans hk
      room := fun {a _ _ _ _} ha => by cases (hnone a).symm.trans ha }
  exact hempty.insert rfl (fun {k _} hk => by cases (hnone k).symm.trans hk)
    (iff_of_true rfl rfl) fun {k _ _} hk => by cases (hnone k).symm.trans hk

theorem mirrored_of_harmless_sample : ∃ w,
    run (step inboxRoots) (.start ["room-1"] [] noRules) createdAndRenamed = some w ∧
      Mirrored inboxRoots noRules w := by
  have hs : ((run (step inboxRoots) (.start ["room-1"] [] noRules) createdAndRenamed).map fun w =>
      decide (AllReplayed w)) = some true := by
    decide +kernel
  obtain ⟨w, hw, hall⟩ := Option.map_eq_some_iff.mp hs
  exact ⟨w, hw, mirrored_of_harmless inbox_wellBound hw (by decide +kernel)
    (of_decide_eq_true hall)⟩

/-- A change of a rule that has been replayed does not reach the folder. -/
theorem not_mirrored : ¬ ∀ (roots : Roots) (rooms : List String) (drafts : List RuleDraft)
    (before : String → RulesFile) (ls : List Step) (w : World), WellBound roots →
      run (step roots) (.start rooms drafts before) ls = some w → AllReplayed w →
        Mirrored roots before w := by
  intro h
  have hs : ((run (step inboxRoots) (.start ["room-1"] [] noRules) changedLater).map fun w =>
      (decide (AllReplayed w), rulesIn (w.files inbox.root),
        (w.server.list "room-1").flatMap translated)) =
      some (true, some [⟨sampleRuleId, 10, { nameStartsWith := some "Bill" },
          ⟨some "bills", false, none⟩⟩],
        [⟨sampleRuleId, 20, { nameStartsWith := some "Bill" }, ⟨some "bills", false, none⟩⟩]) := by
    decide +kernel
  obtain ⟨w, hw, hafter⟩ := Option.map_eq_some_iff.mp hs
  rw [Prod.mk.injEq, Prod.mk.injEq] at hafter
  obtain ⟨hall, hfile, hrules⟩ := hafter
  have hroot : findByRoom inboxRoots "room-1" = some inbox := by decide +kernel
  obtain ⟨l, hl, hperm, -⟩ := h inboxRoots ["room-1"] [] noRules changedLater w inbox_wellBound hw
    (of_decide_eq_true hall) "room-1" inbox [] hroot rfl
  cases hfile.symm.trans hl
  rw [hrules] at hperm
  exact absurd hperm (by decide +kernel)

end MouseKeeper.Desktop.MirroredRules
