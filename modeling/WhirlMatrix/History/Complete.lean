/-
# The history is complete

A call moves from the running calls of the recorder to the history when it is
completed or lost, is forgotten when it is removed, and is swept into the history by
`Finalize` when nothing of this happened.  This file computes from a trace, for each
cookie, the entry that the history is to contain, and shows that the final history
consists of exactly these entries.
-/
import WhirlMatrix.History.Recorder
import Mathlib.Data.List.Nodup
import Mathlib.Data.List.Perm.Basic

namespace Whirl.HistoryRecorder

open Semantics

/-! ## What a trace says about a cookie -/

/-- The cookie that an operation resolves. -/
def Op.resolves : Op → Option Cookie
  | .callCompleted id _ => some id
  | .callLost id => some id
  | .removeCall id => some id
  | _ => none

/-- The call that an event starts. -/
def Event.startedCall (e : Event) : Option RunningCall :=
  match e.op with
  | .callStarted method input => some ⟨method, ⟨input⟩, e.now, []⟩
  | _ => none

/-- The label that an event adds to the call with cookie `id`. -/
def Event.labelFor (id : ℕ) (e : Event) : Option String :=
  match e.op with
  | .addLabel id' label => if id' = id then some label else none
  | _ => none

/-- The call with cookie `id` as it was started; cookies count from 1. -/
def startedCall (events : List Event) : Cookie → Option RunningCall
  | 0 => none
  | i + 1 => (events.filterMap Event.startedCall)[i]?

/-- The labels of the call with cookie `id`, in the order in which they were added. -/
def labelsOf (events : List Event) (id : ℕ) : CallLabels :=
  events.filterMap (Event.labelFor id)

/-- The call with cookie `id` and its labels. -/
def issuedCall (events : List Event) (id : ℕ) : Option RunningCall :=
  (startedCall events id).map fun call => { call with labels := labelsOf events id }

/-- The event that resolves the cookie `id`. -/
def resolution (events : List Event) (id : ℕ) : Option Event :=
  events.find? fun e => e.op.resolves == some id

/-- What becomes of a call that an event resolves. -/
def outcomeOf (call : RunningCall) (e : Event) : Option Call :=
  match e.op with
  | .callCompleted _ output => some (complete e.now call ⟨output⟩)
  | .removeCall _ => none
  | _ => some (lost call)

/-- The entry for the cookie `id` in the final history. -/
def entry (events : List Event) (id : ℕ) : Option Call :=
  (issuedCall events id).bind fun call =>
    match resolution events id with
    | none => some (lost call)
    | some e => outcomeOf call e

/-- The cookies that a trace issues. -/
def cookies (events : List Event) : List Cookie := List.range' 1 (starts events)

/-- Every cookie is resolved at most once, and only after it was issued. -/
structure Disciplined (events : List Event) : Prop where
  issued : ∀ (p : ℕ) (e : Event) (id : ℕ), events[p]? = some e → e.op.resolves = some id →
    1 ≤ id ∧ id ≤ starts (events.take p)
  once : events.Pairwise fun e e' => ∀ id, e.op.resolves = some id → e'.op.resolves ≠ some id

/-! ## A longer trace -/

variable {events : List Event} {e : Event} {id : ℕ}

theorem length_startedCalls (events : List Event) :
    (events.filterMap Event.startedCall).length = starts events := by
  rw [List.length_filterMap_eq_countP, starts]
  refine List.countP_congr fun e _ => ?_
  obtain ⟨now, op⟩ := e
  cases op <;> rfl

/-- Cookies that were issued before keep their calls. -/
theorem startedCall_concat_of_le (h : id ≤ starts events) :
    startedCall (events ++ [e]) id = startedCall events id := by
  cases id with
  | zero => rfl
  | succ i =>
    show (List.filterMap _ (events ++ [e]))[i]? = _
    rw [List.filterMap_append, List.getElem?_append_left (by rw [length_startedCalls]; omega)]
    rfl

theorem startedCall_eq_none (h : starts events < id) : startedCall events id = none := by
  cases id with
  | zero => rfl
  | succ i =>
    apply List.getElem?_eq_none
    rw [length_startedCalls]
    omega

theorem exists_startedCall (h : 1 ≤ id) (h' : id ≤ starts events) :
    ∃ call, startedCall events id = some call := by
  cases id with
  | zero => exact absurd h (by decide)
  | succ i =>
    refine ⟨_, List.getElem?_eq_getElem ?_⟩
    rw [length_startedCalls]
    omega

/-- An event that starts no call changes no call. -/
theorem startedCall_concat (h : e.op.isStart = false) :
    startedCall (events ++ [e]) id = startedCall events id := by
  by_cases hle : id ≤ starts events
  · exact startedCall_concat_of_le hle
  · have hstarts : starts (events ++ [e]) = starts events := by
      rw [starts_concat, h]
      rfl
    rw [startedCall_eq_none (by omega), startedCall_eq_none (by omega)]

theorem resolution_concat (events : List Event) (e : Event) (id : ℕ) :
    resolution (events ++ [e]) id
      = (resolution events id).or (if e.op.resolves = some id then some e else none) := by
  unfold resolution
  rw [List.find?_append]
  by_cases h : e.op.resolves = some id
  · simp [h]
  · simp [h]

theorem labelsOf_concat (events : List Event) (e : Event) (id : ℕ) :
    labelsOf (events ++ [e]) id = labelsOf events id ++ (e.labelFor id).toList := by
  unfold labelsOf
  rw [List.filterMap_append]
  cases h : e.labelFor id <;> simp [h]

theorem Disciplined.of_concat (h : Disciplined (events ++ [e])) : Disciplined events where
  issued p e' id hp hid := by
    have hlt : p < events.length := (List.getElem?_eq_some_iff.mp hp).1
    have hissued := h.issued p e' id (by rw [List.getElem?_append_left hlt, hp]) hid
    rwa [List.take_append_of_le_length hlt.le] at hissued
  once := (List.pairwise_append.mp h.once).1

/-- What the last event of a trace resolves is a running call. -/
theorem Disciplined.last (h : Disciplined (events ++ [e])) (he : e.op.resolves = some id) :
    1 ≤ id ∧ id ≤ starts events ∧ resolution events id = none := by
  have hissued := h.issued events.length e id (by simp) he
  rw [List.take_append_of_le_length (Nat.le_refl _), List.take_length] at hissued
  refine ⟨hissued.1, hissued.2, ?_⟩
  unfold resolution
  rw [List.find?_eq_none]
  intro e' he'
  obtain ⟨-, -, hcross⟩ := List.pairwise_append.mp h.once
  have hne := hcross e' he' e (List.mem_singleton_self e) id
  simp only [beq_iff_eq]
  intro hid
  exact hne hid he

/-- Cookies that are not issued are not resolved. -/
theorem Disciplined.resolution_eq_none (h : Disciplined events) (hid : starts events < id) :
    resolution events id = none := by
  unfold resolution
  rw [List.find?_eq_none]
  intro e he
  simp only [beq_iff_eq]
  intro heq
  obtain ⟨p, hp⟩ := List.mem_iff_getElem?.mp he
  have hissued := (h.issued p e id hp heq).2
  have hle : starts (events.take p) ≤ starts events := (List.take_sublist p events).countP_le
  omega

/-- There is one event that resolves a cookie. -/
theorem Disciplined.resolution_eq (h : Disciplined events) (he : e ∈ events)
    (hid : e.op.resolves = some id) : resolution events id = some e := by
  have hsome : (resolution events id).isSome = true := by
    unfold resolution
    rw [List.find?_isSome]
    exact ⟨e, he, by simp [hid]⟩
  obtain ⟨e', he'⟩ := Option.isSome_iff_exists.mp hsome
  have hmem : e' ∈ events := List.mem_of_find?_eq_some he'
  have hid' : e'.op.resolves = some id := by simpa using List.find?_some he'
  by_contra hne
  have hdiff : e ≠ e' := by
    rintro rfl
    exact hne he'
  -- two different events resolve the cookie
  obtain ⟨p, hp⟩ := List.mem_iff_getElem?.mp he
  obtain ⟨q, hq⟩ := List.mem_iff_getElem?.mp hmem
  obtain ⟨hp', hpe⟩ := List.getElem?_eq_some_iff.mp hp
  obtain ⟨hq', hqe⟩ := List.getElem?_eq_some_iff.mp hq
  have hpair := List.pairwise_iff_getElem.mp h.once
  rcases Nat.lt_trichotomy p q with hpq | rfl | hqp
  · exact hpair p q hp' hq' hpq id (by rw [hpe, hid]) (by rw [hqe, hid'])
  · exact hdiff (Option.some.inj (hp.symm.trans hq))
  · exact hpair q p hq' hp' hqp id (by rw [hqe, hid']) (by rw [hpe, hid])

/-! ## Lists of entries -/

/-- The values of a function that is changed at one point, where it had none. -/
theorem filterMap_perm_of_eq_off {α β : Type} [DecidableEq α] {f f' : α → Option β} {l : List α}
    {a : α} (hl : l.Nodup) (ha : a ∈ l) (hnone : f a = none) (hoff : ∀ b, b ≠ a → f' b = f b) :
    (l.filterMap f').Perm (l.filterMap f ++ (f' a).toList) := by
  have hsame : (l.erase a).filterMap f' = (l.erase a).filterMap f := by
    refine List.filterMap_congr fun b hb => hoff b ?_
    rintro rfl
    exact (hl.mem_erase_iff.mp hb).1 rfl
  have hperm := List.perm_cons_erase ha
  have hf : (l.filterMap f).Perm ((l.erase a).filterMap f) := by
    have hcons := hperm.filterMap f
    rwa [List.filterMap_cons_none hnone] at hcons
  refine (hperm.filterMap f').trans ?_
  cases hval : f' a with
  | none =>
    rw [List.filterMap_cons_none hval, hsame, Option.toList_none, List.append_nil]
    exact hf.symm
  | some b =>
    rw [List.filterMap_cons_some hval, hsame, Option.toList_some]
    exact (List.perm_append_singleton b _).symm.trans (hf.symm.append_right [b])

/-- Values that come from two sources. -/
theorem filterMap_perm_append {α β : Type} {f g h : α → Option β} {l : List α}
    (hone : ∀ a ∈ l, (f a = none ∧ h a = g a) ∨ (g a = none ∧ h a = f a)) :
    (l.filterMap h).Perm (l.filterMap f ++ l.filterMap g) := by
  induction l with
  | nil => exact List.Perm.refl _
  | cons a l ih =>
    have hrest := ih fun b hb => hone b (List.mem_cons_of_mem _ hb)
    rcases hone a (List.mem_cons_self ..) with ⟨hf, hh⟩ | ⟨hg, hh⟩
    · rw [List.filterMap_cons_none hf]
      cases hval : g a with
      | none => rwa [List.filterMap_cons_none hval, List.filterMap_cons_none (hh.trans hval)]
      | some b =>
        rw [List.filterMap_cons_some hval, List.filterMap_cons_some (hh.trans hval)]
        exact (hrest.cons b).trans List.perm_middle.symm
    · rw [List.filterMap_cons_none hg]
      cases hval : f a with
      | none => rwa [List.filterMap_cons_none hval, List.filterMap_cons_none (hh.trans hval)]
      | some b =>
        rw [List.filterMap_cons_some hval, List.filterMap_cons_some (hh.trans hval)]
        exact hrest.cons b

/-! ## The invariant of a run -/

/-- The entry of a cookie that is resolved. -/
def resolvedEntry (events : List Event) (id : ℕ) : Option Call :=
  match resolution events id with
  | none => none
  | some _ => entry events id

/-- The recorder after a trace: unresolved calls are running, the resolved ones are in
the history. -/
structure Tracked (events : List Event) (r : HistoryRecorder) : Prop where
  nextId : r.nextId = starts events
  labelled : ∀ id, starts events < id → labelsOf events id = []
  running : ∀ id, r.runningCalls[id]?
    = if (resolution events id).isNone then issuedCall events id else none
  finalized : r.finalizedCalls.Perm ((cookies events).filterMap (resolvedEntry events))

theorem tracked_nil : Tracked [] {} where
  nextId := rfl
  labelled _ _ := rfl
  running id := by
    cases id with
    | zero => rfl
    | succ i => rfl
  finalized := List.Perm.refl _

theorem nodup_cookies (events : List Event) : (cookies events).Nodup := List.nodup_range'

theorem mem_cookies : id ∈ cookies events ↔ 1 ≤ id ∧ id ≤ starts events := by
  unfold cookies
  rw [List.mem_range'_1]
  omega

/-- A call with a cookie was issued. -/
theorem mem_cookies_of_issuedCall {call : RunningCall} (h : issuedCall events id = some call) :
    id ∈ cookies events := by
  unfold issuedCall at h
  obtain ⟨started, hstarted, -⟩ := Option.map_eq_some_iff.mp h
  rw [mem_cookies]
  constructor
  · by_contra hzero
    obtain rfl : id = 0 := by omega
    exact absurd hstarted (by simp [startedCall])
  · by_contra hlarge
    rw [startedCall_eq_none (by omega)] at hstarted
    exact absurd hstarted (by simp)

variable {r r' : HistoryRecorder}

/-- A cookie that is not resolved by an event keeps its call when it has no label from it. -/
theorem issuedCall_concat (h : e.op.isStart = false) (hlabel : e.labelFor id = none) :
    issuedCall (events ++ [e]) id = issuedCall events id := by
  unfold issuedCall
  rw [startedCall_concat h, labelsOf_concat, hlabel, Option.toList_none, List.append_nil]

theorem resolution_concat_of_ne (h : e.op.resolves ≠ some id) :
    resolution (events ++ [e]) id = resolution events id := by
  rw [resolution_concat, if_neg h, Option.or_none]

/-- The entries that are unaffected by an event. -/
theorem resolvedEntry_concat (hres : e.op.resolves ≠ some id)
    (hcall : (resolution events id).isSome = true →
      issuedCall (events ++ [e]) id = issuedCall events id) :
    resolvedEntry (events ++ [e]) id = resolvedEntry events id := by
  unfold resolvedEntry entry
  rw [resolution_concat_of_ne hres]
  cases hresolution : resolution events id with
  | none => rfl
  | some e' => rw [hcall (by rw [hresolution]; rfl)]

/-- `CallStarted` issues the next cookie. -/
theorem Tracked.callStarted {now : ℕ} {method : String} {input : Bytes} (h : Tracked events r)
    (hdisc : Disciplined events) :
    Tracked (events ++ [⟨now, .callStarted method input⟩]) (r.callStarted now method input).2 := by
  have hstarts : starts (events ++ [⟨now, .callStarted method input⟩]) = starts events + 1 :=
    starts_concat _ _
  have hres : ∀ id, resolution (events ++ [⟨now, .callStarted method input⟩]) id
      = resolution events id := fun id => resolution_concat_of_ne (by simp [Op.resolves])
  have hlabels : ∀ id, labelsOf (events ++ [⟨now, .callStarted method input⟩]) id
      = labelsOf events id := fun id => by
    rw [labelsOf_concat]
    exact List.append_nil _
  have hold : ∀ id, id ≤ starts events →
      issuedCall (events ++ [⟨now, .callStarted method input⟩]) id = issuedCall events id := by
    intro id hid
    unfold issuedCall
    rw [startedCall_concat_of_le hid, hlabels]
  -- the new call
  have hnew : issuedCall (events ++ [⟨now, .callStarted method input⟩]) (starts events + 1)
      = some ⟨method, ⟨input⟩, now, []⟩ := by
    unfold issuedCall
    rw [hlabels, h.labelled _ (Nat.lt_succ_self _)]
    show Option.map _ (List.filterMap _ (events ++ [_]))[starts events]? = _
    rw [List.filterMap_append, List.getElem?_append_right (by rw [length_startedCalls]),
      length_startedCalls, Nat.sub_self]
    rfl
  refine ⟨?_, fun id hid => ?_, fun id => ?_, ?_⟩
  · rw [hstarts, ← h.nextId]
    rfl
  · rw [hlabels]
    exact h.labelled id (by omega)
  · show (r.runningCalls.insertIfNew (r.nextId + 1) ⟨method, ⟨input⟩, now, []⟩)[id]? = _
    rw [Std.ExtTreeMap.getElem?_insertIfNew, h.nextId, hres]
    by_cases hid : id = starts events + 1
    · subst hid
      have hnone : resolution events (starts events + 1) = none :=
        hdisc.resolution_eq_none (Nat.lt_succ_self _)
      have hfresh : starts events + 1 ∉ r.runningCalls := by
        rw [Std.ExtTreeMap.mem_iff_isSome_getElem?, h.running, issuedCall,
          startedCall_eq_none (Nat.lt_succ_self _)]
        simp
      rw [if_pos ⟨compare_eq_iff_eq.mpr rfl, hfresh⟩, hnone, hnew]
      rfl
    · rw [if_neg (fun hcmp => hid (compare_eq_iff_eq.mp hcmp.1).symm), h.running]
      by_cases hle : id ≤ starts events
      · rw [hold id hle]
      · have hlt : starts events < id := by omega
        unfold issuedCall
        rw [startedCall_eq_none hlt, startedCall_eq_none (by omega)]
        rfl
  · have hcookies : cookies (events ++ [⟨now, .callStarted method input⟩])
        = cookies events ++ [starts events + 1] := by
      unfold cookies
      rw [hstarts, List.range'_1_concat, Nat.add_comm]
    have hnone : resolvedEntry (events ++ [⟨now, .callStarted method input⟩]) (starts events + 1)
        = none := by
      unfold resolvedEntry
      rw [hres, hdisc.resolution_eq_none (Nat.lt_succ_self _)]
    rw [hcookies, List.filterMap_append, List.filterMap_cons_none hnone, List.filterMap_nil,
      List.append_nil]
    refine h.finalized.trans (List.Perm.of_eq (List.filterMap_congr fun id hid => ?_))
    rw [resolvedEntry_concat (by simp [Op.resolves]) fun _ => hold id (mem_cookies.mp hid).2]

/-- `AddLabel` finds a call that runs. -/
theorem Tracked.addLabel {now : ℕ} {label : String} (h : Tracked events r)
    (hstep : r.addLabel id label = .ok r') :
    Tracked (events ++ [⟨now, .addLabel id label⟩]) r' := by
  have hres : ∀ id', resolution (events ++ [⟨now, .addLabel id label⟩]) id' = resolution events id' :=
    fun id' => resolution_concat_of_ne (by simp [Op.resolves])
  have hstarts : starts (events ++ [⟨now, .addLabel id label⟩]) = starts events := starts_concat _ _
  have hother : ∀ id', id ≠ id' →
      issuedCall (events ++ [⟨now, .addLabel id label⟩]) id' = issuedCall events id' :=
    fun id' hne => issuedCall_concat rfl (if_neg hne)
  obtain ⟨call, hcall, rfl⟩ := addLabel_eq_ok hstep
  -- the call runs, so it was issued and is not resolved
  have hcall' := hcall
  rw [h.running] at hcall'
  split at hcall'
  swap
  · exact absurd hcall' (by simp)
  rename_i hnone
  refine ⟨?_, fun id' hid' => ?_, fun id' => ?_, ?_⟩
  · rw [hstarts]
    exact h.nextId
  · rw [hstarts] at hid'
    have hne : id ≠ id' := by
      rintro rfl
      unfold issuedCall at hcall'
      rw [startedCall_eq_none hid'] at hcall'
      exact absurd hcall' (by simp)
    have hfor : Event.labelFor id' ⟨now, .addLabel id label⟩ = none := if_neg hne
    rw [labelsOf_concat, h.labelled id' hid', hfor]
    rfl
  · rw [hres]
    show (r.runningCalls.insert id _)[id']? = _
    rw [Std.ExtTreeMap.getElem?_insert]
    by_cases hid : id = id'
    · subst hid
      rw [if_pos (compare_eq_iff_eq.mpr rfl), if_pos hnone]
      unfold issuedCall at hcall' ⊢
      obtain ⟨started, hstarted, rfl⟩ := Option.map_eq_some_iff.mp hcall'
      have hfor : Event.labelFor id ⟨now, .addLabel id label⟩ = some label := if_pos rfl
      rw [startedCall_concat rfl, hstarted, labelsOf_concat, hfor]
      rfl
    · rw [if_neg fun hcmp => hid (compare_eq_iff_eq.mp hcmp), h.running, hother id' hid]
  · unfold cookies
    rw [hstarts]
    refine h.finalized.trans (List.Perm.of_eq (List.filterMap_congr fun id' _ => ?_))
    refine (resolvedEntry_concat (by simp [Op.resolves]) fun hsome => hother id' ?_).symm
    rintro rfl
    rw [Option.isNone_iff_eq_none] at hnone
    rw [hnone] at hsome
    exact absurd hsome (by decide)

/-- A call is resolved: it stops running, and what becomes of it joins the history. -/
theorem Tracked.resolve (h : Tracked events r) (he : e.op.resolves = some id) {call : RunningCall}
    (hcall : issuedCall events id = some call) (hnone : resolution events id = none) :
    Tracked (events ++ [e]) { r with
      runningCalls := r.runningCalls.erase id
      finalizedCalls := r.finalizedCalls ++ (outcomeOf call e).toList } := by
  -- An event that resolves a call neither starts one nor labels one.
  have hstart : e.op.isStart = false := by
    obtain ⟨now, op⟩ := e
    cases op with
    | callStarted method input => exact absurd he (by simp [Op.resolves])
    | _ => rfl
  have hlabel : ∀ id', e.labelFor id' = none := by
    intro id'
    obtain ⟨now, op⟩ := e
    cases op with
    | addLabel id label => exact absurd he (by simp [Op.resolves])
    | _ => rfl
  have hstarts : starts (events ++ [e]) = starts events := by
    rw [starts_concat, hstart]
    rfl
  have hissued : ∀ id', issuedCall (events ++ [e]) id' = issuedCall events id' :=
    fun id' => issuedCall_concat hstart (hlabel id')
  have hres : resolution (events ++ [e]) id = some e := by
    rw [resolution_concat, hnone, if_pos he]
    rfl
  have hother : ∀ id', id' ≠ id → resolution (events ++ [e]) id' = resolution events id' := by
    intro id' hne
    refine resolution_concat_of_ne ?_
    rw [he]
    exact fun heq => hne (Option.some.inj heq).symm
  refine ⟨?_, fun id' hid' => ?_, fun id' => ?_, ?_⟩
  · rw [hstarts]
    exact h.nextId
  · rw [hstarts] at hid'
    rw [labelsOf_concat, h.labelled id' hid', hlabel]
    rfl
  · show (r.runningCalls.erase id)[id']? = _
    rw [Std.ExtTreeMap.getElem?_erase]
    by_cases hid : id = id'
    · subst hid
      rw [if_pos (compare_eq_iff_eq.mpr rfl), hres]
      rfl
    · rw [if_neg fun hcmp => hid (compare_eq_iff_eq.mp hcmp), h.running, hissued,
        hother id' (Ne.symm hid)]
  -- The entries of the other calls stay, so the lists differ in this one entry.
  · have hmem : id ∈ cookies events := mem_cookies_of_issuedCall hcall
    have hentry : resolvedEntry (events ++ [e]) id = outcomeOf call e := by
      unfold resolvedEntry entry
      rw [hres, hissued, hcall]
      rfl
    unfold cookies
    rw [hstarts, ← hentry]
    refine (h.finalized.append_right _).trans (List.Perm.symm ?_)
    refine filterMap_perm_of_eq_off (nodup_cookies events) hmem ?_ fun id' hne => ?_
    · unfold resolvedEntry
      rw [hnone]
    · refine resolvedEntry_concat ?_ fun _ => hissued id'
      rw [he]
      exact fun heq => hne (Option.some.inj heq).symm

/-- One event of a disciplined trace. -/
theorem Tracked.execute (h : Tracked events r) (hdisc : Disciplined (events ++ [e]))
    (hfinalize : e.op ≠ .finalize) (hstep : r.execute e = .ok r') : Tracked (events ++ [e]) r' := by
  obtain ⟨now, op⟩ := e
  have hrunning : ∀ id call, r.runningCalls[id]? = some call → issuedCall events id = some call := by
    intro id call hcall
    rw [h.running] at hcall
    split at hcall
    · exact hcall
    · exact absurd hcall (by simp)
  cases op with
  | callStarted method input =>
    obtain rfl : (r.callStarted now method input).2 = r' := Except.ok.inj hstep
    exact h.callStarted hdisc.of_concat
  | addLabel id label => exact h.addLabel hstep
  | callCompleted id output =>
    obtain ⟨-, -, hnone⟩ := hdisc.last (show Op.resolves (.callCompleted id output) = some id from rfl)
    obtain ⟨call, hcall, rfl⟩ := callCompleted_eq_ok hstep
    exact h.resolve rfl (hrunning id call hcall) hnone
  | callLost id =>
    obtain ⟨-, -, hnone⟩ := hdisc.last (show Op.resolves (.callLost id) = some id from rfl)
    obtain ⟨call, hcall, rfl⟩ := callLost_eq_ok hstep
    exact h.resolve rfl (hrunning id call hcall) hnone
  | removeCall id =>
    obtain ⟨hpos, hle, hnone⟩ := hdisc.last (show Op.resolves (.removeCall id) = some id from rfl)
    obtain rfl : r.removeCall id = r' := Except.ok.inj hstep
    obtain ⟨started, hstarted⟩ := exists_startedCall hpos hle
    have htracked := h.resolve (e := ⟨now, .removeCall id⟩) rfl
      (show issuedCall events id = some _ by rw [issuedCall, hstarted]; rfl) hnone
    have hsame : r.finalizedCalls ++ [] = r.finalizedCalls := List.append_nil _
    rwa [show (outcomeOf _ _).toList = ([] : List Call) from rfl, hsame] at htracked
  | finalize => exact absurd rfl hfinalize

/-- The recorder follows every disciplined trace. -/
theorem tracked_of_run (hdisc : Disciplined events) (hfinalize : ∀ e ∈ events, e.op ≠ .finalize)
    (h : run events = .ok r) : Tracked events r := by
  induction events using List.reverseRecOn generalizing r with
  | nil =>
    obtain rfl : ({} : HistoryRecorder) = r := Except.ok.inj h
    exact tracked_nil
  | append_singleton events e ih =>
    obtain ⟨r₀, hrun, hstep⟩ := run_concat_eq_ok.mp h
    have htracked := ih hdisc.of_concat (fun e' he' => hfinalize e' (List.mem_append_left _ he')) hrun
    exact htracked.execute hdisc (hfinalize e (by simp)) hstep

/-! ## The final sweep -/

/-- The sweep adds what is left: the history then holds the entry of every cookie. -/
theorem Tracked.finalize (h : Tracked events r) :
    r.finalize.getHistory.Perm ((cookies events).filterMap (entry events)) := by
  have hkeys : ∀ id call, (id, call) ∈ r.runningCalls.toList ↔
      (resolution events id).isNone = true ∧ issuedCall events id = some call := by
    intro id call
    rw [Std.ExtTreeMap.mem_toList_iff_getElem?_eq_some, h.running]
    split
    · simp_all
    · simp_all
  -- the running calls, listed by cookie
  have hswept : r.runningCalls.toList.Perm ((cookies events).filterMap fun id =>
      if (resolution events id).isNone then (issuedCall events id).map fun call => (id, call)
      else none) := by
    refine (List.perm_ext_iff_of_nodup ?_ ?_).mpr fun ⟨id, call⟩ => ?_
    · refine (Std.ExtTreeMap.distinct_keys_toList (t := r.runningCalls)).imp fun hne heq => ?_
      exact hne (compare_eq_iff_eq.mpr (by rw [heq]))
    · refine List.Nodup.filterMap ?_ (nodup_cookies events)
      intro id id' x hx hx'
      split at hx
      · split at hx'
        · obtain ⟨_, -, rfl⟩ := Option.map_eq_some_iff.mp hx
          obtain ⟨_, -, heq⟩ := Option.map_eq_some_iff.mp hx'
          exact (Prod.mk.inj heq).1.symm
        · exact absurd hx' (by simp)
      · exact absurd hx (by simp)
    · rw [hkeys, List.mem_filterMap]
      constructor
      · rintro ⟨hnone, hcall⟩
        refine ⟨id, mem_cookies_of_issuedCall hcall, ?_⟩
        rw [if_pos hnone, hcall]
        rfl
      · rintro ⟨id', -, hid'⟩
        split at hid'
        · rename_i hnone
          obtain ⟨call', hcall', heq⟩ := Option.map_eq_some_iff.mp hid'
          obtain ⟨rfl, rfl⟩ := Prod.mk.inj heq
          exact ⟨hnone, hcall'⟩
        · exact absurd hid' (by simp)
  have hlost := hswept.map fun e : Cookie × RunningCall => lost e.2
  rw [List.map_filterMap] at hlost
  show (r.finalizedCalls ++ r.runningCalls.toList.map fun e => lost e.2).Perm _
  refine (h.finalized.append hlost).trans (List.Perm.symm ?_)
  refine filterMap_perm_append fun id _ => ?_
  unfold resolvedEntry entry
  cases hres : resolution events id with
  | none =>
    refine Or.inl ⟨rfl, ?_⟩
    cases issuedCall events id <;> rfl
  | some e => exact Or.inr ⟨rfl, rfl⟩

/-! ## What the entries say -/

/-- An issued call was started in the trace. -/
theorem exists_startsAt {call : RunningCall} (h : startedCall events id = some call) :
    ∃ p, StartsAt events p id call.startTime call.method call.arguments := by
  induction events using List.reverseRecOn with
  | nil =>
    cases id with
    | zero => exact absurd h (by simp [startedCall])
    | succ i => exact absurd h (by simp [startedCall])
  | append_singleton events e ih =>
    by_cases hle : id ≤ starts events
    · rw [startedCall_concat_of_le hle] at h
      obtain ⟨p, hp⟩ := ih h
      exact ⟨p, hp.concat e⟩
    · cases hstart : e.op.isStart with
      | false =>
        rw [startedCall_concat hstart, startedCall_eq_none (by omega)] at h
        exact absurd h (by simp)
      | true =>
        -- the last event starts the call
        obtain ⟨now, op⟩ := e
        cases op with
        | callStarted method input =>
          have hstarts : starts (events ++ [⟨now, .callStarted method input⟩])
              = starts events + 1 := starts_concat _ _
          have hid : id = starts events + 1 := by
            by_contra hne
            rw [startedCall_eq_none (by omega)] at h
            exact absurd h (by simp)
          subst hid
          have hcall : startedCall (events ++ [⟨now, .callStarted method input⟩])
              (starts events + 1) = some ⟨method, ⟨input⟩, now, []⟩ := by
            show (List.filterMap _ (events ++ [_]))[starts events]? = _
            rw [List.filterMap_append, List.getElem?_append_right (by rw [length_startedCalls]),
              length_startedCalls, Nat.sub_self]
            rfl
          obtain rfl := Option.some.inj (hcall.symm.trans h)
          refine ⟨events.length, by simp, ?_⟩
          rw [List.take_of_length_le (by simp), hstarts]
        | _ => exact absurd hstart (by simp [Op.isStart])

/-- A call is started before it is resolved. -/
theorem Disciplined.started_le {p q now : ℕ} {method : String} {arguments : Arguments}
    (h : Disciplined events) (hmono : events.Pairwise (·.now ≤ ·.now))
    (hp : StartsAt events p id now method arguments) (hq : events[q]? = some e)
    (hid : e.op.resolves = some id) : now ≤ e.now := by
  obtain ⟨hget, hcount⟩ := hp
  obtain ⟨hp', hpe⟩ := List.getElem?_eq_some_iff.mp hget
  obtain ⟨hq', hqe⟩ := List.getElem?_eq_some_iff.mp hq
  have hissued := (h.issued q e id hq hid).2
  have hlt : p < q := by
    by_contra hge
    have hle : starts (events.take q) ≤ starts (events.take p) :=
      (List.take_sublist_take_left (Nat.not_lt.mp hge)).countP_le
    have hstart : starts (events.take (p + 1)) = starts (events.take p) + 1 := by
      rw [List.take_succ_eq_append_getElem hp', hpe, starts_concat]
      rfl
    omega
  have hpair := List.pairwise_iff_getElem.mp hmono p q hp' hq' hlt
  rwa [hpe, hqe] at hpair

/-- What the entry for a cookie is to say. -/
structure EntryOf (events : List Event) (id : ℕ) (call : Call) : Prop where
  started : ∃ p, StartsAt events p id call.startTime call.method call.arguments
  labels : call.labels = labelsOf events id
  completed : call.isCompleted = true ↔ ∃ t output, ⟨t, .callCompleted id output⟩ ∈ events
  result : ∀ t output, ⟨t, .callCompleted id output⟩ ∈ events →
    call.endTime = some t ∧ call.result = some ⟨output⟩ ∧ call.startTime ≤ t

/-- The entry of a cookie says what the trace does with it. -/
theorem entryOf_of_entry (hdisc : Disciplined events) (hmono : events.Pairwise (·.now ≤ ·.now))
    {call : Call} (h : entry events id = some call) : EntryOf events id call := by
  unfold entry at h
  obtain ⟨issued, hissued, hcall⟩ := Option.bind_eq_some_iff.mp h
  unfold issuedCall at hissued
  obtain ⟨started, hstarted, rfl⟩ := Option.map_eq_some_iff.mp hissued
  obtain ⟨p, hp⟩ := exists_startsAt hstarted
  -- a completion is the resolution
  have hcompletion : ∀ t output, ⟨t, .callCompleted id output⟩ ∈ events →
      resolution events id = some ⟨t, .callCompleted id output⟩ :=
    fun t output hmem => hdisc.resolution_eq hmem rfl
  have hlost : call = lost { started with labels := labelsOf events id } →
      (∀ t output, ⟨t, .callCompleted id output⟩ ∉ events) → EntryOf events id call := by
    rintro rfl hnone
    refine ⟨⟨p, hp⟩, rfl, iff_of_false (by simp [lost, Call.isCompleted]) ?_, ?_⟩
    · rintro ⟨t, output, hmem⟩
      exact hnone t output hmem
    · intro t output hmem
      exact absurd hmem (hnone t output)
  split at hcall
  · rename_i hnone
    refine hlost (Option.some.inj hcall).symm fun t output hmem => ?_
    exact absurd (hnone.symm.trans (hcompletion t output hmem)) (by simp)
  · rename_i e he
    have hmem : e ∈ events := List.mem_of_find?_eq_some he
    have hid : e.op.resolves = some id := by simpa using List.find?_some he
    obtain ⟨now, op⟩ := e
    cases op with
    | callCompleted id' output =>
      obtain rfl : id' = id := Option.some.inj hid
      obtain rfl := Option.some.inj hcall
      obtain ⟨q, hq⟩ := List.mem_iff_getElem?.mp hmem
      refine ⟨⟨p, hp⟩, rfl, iff_of_true rfl ⟨now, output, hmem⟩, fun t output' hmem' => ?_⟩
      have heq := Option.some.inj (he.symm.trans (hcompletion t output' hmem'))
      simp only [Event.mk.injEq, Op.callCompleted.injEq, true_and] at heq
      obtain ⟨rfl, rfl⟩ := heq
      exact ⟨rfl, rfl, hdisc.started_le hmono hp hq rfl⟩
    | callLost id' =>
      refine hlost (Option.some.inj hcall).symm fun t output hmem' => ?_
      exact absurd (he.symm.trans (hcompletion t output hmem')) (by simp)
    | removeCall id' => exact absurd hcall (by simp [outcomeOf])
    | _ => exact absurd hid (by simp [Op.resolves])

/-- Only the calls that are removed have no entry. -/
theorem entry_eq_none_iff (hdisc : Disciplined events) (hid : id ∈ cookies events) :
    entry events id = none ↔ ∃ t, ⟨t, .removeCall id⟩ ∈ events := by
  obtain ⟨hpos, hle⟩ := mem_cookies.mp hid
  obtain ⟨started, hstarted⟩ := exists_startedCall hpos hle
  unfold entry issuedCall
  rw [hstarted, Option.map_some, Option.bind_some]
  constructor
  · intro hnone
    split at hnone
    · exact absurd hnone (by simp)
    · rename_i e he
      have hmem : e ∈ events := List.mem_of_find?_eq_some he
      have hres : e.op.resolves = some id := by simpa using List.find?_some he
      obtain ⟨now, op⟩ := e
      cases op with
      | removeCall id' =>
        obtain rfl : id' = id := Option.some.inj hres
        exact ⟨now, hmem⟩
      | _ => exact absurd hnone (by simp [outcomeOf])
  · rintro ⟨t, hmem⟩
    rw [hdisc.resolution_eq hmem rfl]
    rfl

/-- **The history is complete and free of duplicates.**  After the final sweep the history
consists of one entry for each cookie whose call was not removed, and each says when and
how its call was started, labelled and completed. -/
theorem history_of_run {events : List Event} {now : ℕ} {r : HistoryRecorder}
    (hdisc : Disciplined events) (hfinalize : ∀ e ∈ events, e.op ≠ .finalize)
    (hmono : events.Pairwise (·.now ≤ ·.now))
    (hrun : run (events ++ [⟨now, .finalize⟩]) = .ok r) :
    r.getHistory.Perm ((cookies events).filterMap (entry events)) ∧
      (∀ id ∈ cookies events, entry events id = none ↔ ∃ t, ⟨t, .removeCall id⟩ ∈ events) ∧
      ∀ id call, entry events id = some call → EntryOf events id call := by
  obtain ⟨r₀, hrun₀, hstep⟩ := run_concat_eq_ok.mp hrun
  obtain rfl : r₀.finalize = r := Except.ok.inj hstep
  have htracked := tracked_of_run hdisc hfinalize hrun₀
  refine ⟨htracked.finalize, fun id hid => entry_eq_none_iff hdisc hid, fun id call hcall => ?_⟩
  exact entryOf_of_entry hdisc hmono hcall

/-- A disciplined trace whose labels are added to running calls does not fail. -/
theorem exists_run_of_labelled {events : List Event} (hdisc : Disciplined events)
    (hfinalize : ∀ e ∈ events, e.op ≠ .finalize)
    (hlabels : ∀ (p t id : ℕ) (label : String), events[p]? = some ⟨t, .addLabel id label⟩ →
      id ∈ cookies (events.take p) ∧ resolution (events.take p) id = none) :
    ∃ r, run events = .ok r := by
  induction events using List.reverseRecOn with
  | nil => exact ⟨_, rfl⟩
  | append_singleton events e ih =>
    have hfinalize' : ∀ e' ∈ events, e'.op ≠ .finalize := fun e' he' =>
      hfinalize e' (List.mem_append_left _ he')
    obtain ⟨r, hr⟩ := ih hdisc.of_concat hfinalize' fun p t id label hp => by
      have hlt : p < events.length := (List.getElem?_eq_some_iff.mp hp).1
      have hlabel := hlabels p t id label (by rw [List.getElem?_append_left hlt, hp])
      rwa [List.take_append_of_le_length hlt.le] at hlabel
    have htracked := tracked_of_run hdisc.of_concat hfinalize' hr
    -- an issued cookie that is not resolved has a running call
    have hfound : ∀ id, id ∈ cookies events → resolution events id = none →
        ∃ call, r.runningCalls[id]? = some call := by
      intro id hid hnone
      obtain ⟨started, hstarted⟩ := exists_startedCall (mem_cookies.mp hid).1 (mem_cookies.mp hid).2
      refine ⟨{ started with labels := labelsOf events id }, ?_⟩
      rw [htracked.running, hnone, issuedCall, hstarted]
      rfl
    suffices hstep : ∃ r', r.execute e = .ok r' by
      obtain ⟨r', hr'⟩ := hstep
      exact ⟨r', run_concat_eq_ok.mpr ⟨r, hr, hr'⟩⟩
    obtain ⟨now, op⟩ := e
    cases op with
    | addLabel id label =>
      have hlabel := hlabels events.length now id label (by simp)
      rw [List.take_append_of_le_length (Nat.le_refl _), List.take_length] at hlabel
      obtain ⟨call, hcall⟩ := hfound id hlabel.1 hlabel.2
      exact ⟨_, by simp only [HistoryRecorder.execute, HistoryRecorder.addLabel, hcall]; rfl⟩
    | callCompleted id output =>
      obtain ⟨hpos, hle, hnone⟩ := hdisc.last (show Op.resolves (.callCompleted id output) = some id
        from rfl)
      obtain ⟨call, hcall⟩ := hfound id (mem_cookies.mpr ⟨hpos, hle⟩) hnone
      exact ⟨_, by simp only [HistoryRecorder.execute, callCompleted, hcall]; rfl⟩
    | callLost id =>
      obtain ⟨hpos, hle, hnone⟩ := hdisc.last (show Op.resolves (.callLost id) = some id from rfl)
      obtain ⟨call, hcall⟩ := hfound id (mem_cookies.mpr ⟨hpos, hle⟩) hnone
      exact ⟨_, by simp only [HistoryRecorder.execute, callLost, hcall]; rfl⟩
    | _ => exact ⟨_, rfl⟩

/-- Three calls of two clients: one is completed, one is removed, one is still running. -/
def mixedEvents : List Event :=
  [⟨1, .callStarted "Set" [7]⟩, ⟨1, .callStarted "Get" []⟩, ⟨1, .addLabel 1 "a"⟩,
    ⟨2, .callStarted "Get" [1]⟩, ⟨4, .removeCall 2⟩, ⟨6, .callCompleted 1 [0]⟩]

theorem history_of_run_mixed :
    ∃ r, run (mixedEvents ++ [⟨9, .finalize⟩]) = .ok r ∧
      r.getHistory.Perm ((cookies mixedEvents).filterMap (entry mixedEvents)) ∧
      r.getHistory.length = 2 := by
  have hdisc : Disciplined mixedEvents := by
    constructor
    · intro p e id hp hid
      rcases p with _ | _ | _ | _ | _ | _ | p
      all_goals
        simp only [mixedEvents, List.getElem?_cons_zero, List.getElem?_cons_succ,
          List.getElem?_nil, Option.some.injEq, reduceCtorEq] at hp
      all_goals
        subst hp
        simp only [Op.resolves, Option.some.injEq, reduceCtorEq] at hid
      all_goals
        subst hid
        decide
    · simp [mixedEvents, Op.resolves]
  have hrun : run (mixedEvents ++ [⟨9, .finalize⟩]) = .ok _ := rfl
  obtain ⟨hperm, -, -⟩ := history_of_run hdisc (by decide) (by decide) hrun
  exact ⟨_, hrun, hperm, rfl⟩

end Whirl.HistoryRecorder
