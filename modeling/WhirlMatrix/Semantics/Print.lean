/-
# Printed histories

`Print` of `semantics/printers/print.hpp`.  The time points of a history are numbered in
ascending order, and every call is drawn as a segment between two columns.  The printer of
calls, `CallPrinter::Print`, is a parameter.
-/
import WhirlMatrix.History.Recorder

namespace Whirl.Semantics

/-! ## Segments -/

/-- `kUnitLength`. -/
def kUnitLength : ℕ := 3

/-- `PrintLabels`. -/
def printLabels (labels : CallLabels) : String :=
  if labels.isEmpty then "" else "\x7b" ++ String.intercalate ", " labels ++ "\x7d"

/-- `MakeSpace`. -/
def makeSpace (startTs : ℕ) : String := String.ofList (List.replicate (startTs * kUnitLength) ' ')

/-- A write through `operator[]` of a string. -/
def writeAt (s : List Char) (i : ℕ) (c : Char) : Outcome (List Char) :=
  if i < s.length then .ok (s.set i c) else .error .undefined

/-- `MakeCallSegment`. -/
def makeCallSegment (start stop : ℕ) (completed : Bool) : Outcome String :=
  if stop < start then
    -- the difference wraps around, and the constructor of the string throws
    .error .outOfRange
  else do
    let call := List.replicate ((stop - start) * kUnitLength) '-'
    let call ← writeAt call 0 '['
    if completed then
      let call ← writeAt call (call.length - 1) ']'
      return String.ofList call
    else
      return String.ofList call

/-! ## `Print` -/

/-- The time points of a call join those of the calls before it. -/
def insertTimes (tps : Std.ExtTreeSet ℕ compare) (call : Call) : Std.ExtTreeSet ℕ compare :=
  match call.endTime with
  | some endTime => (tps.insert call.startTime).insert endTime
  | none => tps.insert call.startTime

/-- The time points of a history, in a `std::set`. -/
def timePoints (history : History) : Std.ExtTreeSet ℕ compare := history.foldl insertTimes ∅

/-- The next time point gets the next number. -/
def numberNext (numbered : Std.ExtTreeMap ℕ ℕ compare × ℕ) (tp : ℕ) :
    Std.ExtTreeMap ℕ ℕ compare × ℕ :=
  (numbered.1.insert tp (numbered.2 + 1), numbered.2 + 1)

/-- Compact time points: the map, and the last number that was given. -/
def compactTps (history : History) : Std.ExtTreeMap ℕ ℕ compare × ℕ :=
  (timePoints history).toList.foldl numberNext (∅, 0)

/-- `compact_tps[tp]`. -/
def column (history : History) (tp : ℕ) : ℕ := (compactTps history).1[tp]?.getD 0

/-- `max_tp`. -/
def maxTp (history : History) : ℕ := (compactTps history).2 + 1

/-- `start_ts` of a call. -/
def startTs (history : History) (call : Call) : ℕ := column history call.startTime

/-- `end_ts` of a call. -/
def endTs (history : History) (call : Call) : ℕ :=
  match call.endTime with
  | some endTime => column history endTime
  | none => maxTp history

/-- The two lines of the call with index `i`. -/
def callLines (printCall : Call → String) (history : History) (call : Call) (i : ℕ)
    (segment : String) : String :=
  makeSpace (startTs history call) ++ toString (i + 1) ++ ". " ++ printCall call ++ "\t"
    ++ printLabels call.labels ++ "\n" ++ makeSpace (startTs history call) ++ segment ++ "\n"

/-- The segment of a call. -/
def callSegment (history : History) (call : Call) : Outcome String :=
  makeCallSegment (startTs history call) (endTs history call) call.isCompleted

/-- `Print`. -/
def print (printCall : Call → String) (history : History) : Outcome String :=
  history.zipIdx.foldlM (fun out (call, i) => do
    let segment ← callSegment history call
    return out ++ callLines printCall history call i segment) ""

/-! ## Columns -/

variable {history : History} {t t' : ℕ}

theorem mem_insertTimes {tps : Std.ExtTreeSet ℕ compare} {call : Call} :
    t ∈ insertTimes tps call ↔ t ∈ tps ∨ call.startTime = t ∨ call.endTime = some t := by
  rw [insertTimes]
  split
  · rename_i endTime hend
    simp only [Std.ExtTreeSet.mem_insert, compare_eq_iff_eq, hend, Option.some.injEq]
    tauto
  · rename_i hend
    simp only [Std.ExtTreeSet.mem_insert, compare_eq_iff_eq, hend, reduceCtorEq]
    tauto

/-- The time points are the times at which calls start and end. -/
theorem mem_timePoints : t ∈ timePoints history ↔
    ∃ call ∈ history, call.startTime = t ∨ call.endTime = some t := by
  have hloop : ∀ tps : Std.ExtTreeSet ℕ compare, t ∈ history.foldl insertTimes tps ↔
      t ∈ tps ∨ ∃ call ∈ history, call.startTime = t ∨ call.endTime = some t := by
    induction history with
    | nil => simp
    | cons call calls ih =>
      intro tps
      rw [List.foldl_cons, ih, mem_insertTimes, or_assoc]
      simp only [List.mem_cons, exists_eq_or_imp]
  rw [timePoints, hloop]
  simp

theorem nodup_timePoints (history : History) : (timePoints history).toList.Nodup :=
  Std.ExtTreeSet.distinct_toList.imp fun hne heq => hne (compare_eq_iff_eq.mpr heq)

/-- Different time points get different numbers, which follow their order in the list. -/
theorem foldl_numberNext {tps : List ℕ} (hnodup : tps.Nodup)
    (numbered : Std.ExtTreeMap ℕ ℕ compare × ℕ) :
    (tps.foldl numberNext numbered).2 = numbered.2 + tps.length ∧
      (∀ t, t ∉ tps → (tps.foldl numberNext numbered).1[t]? = numbered.1[t]?) ∧
      ∀ i t, tps[i]? = some t →
        (tps.foldl numberNext numbered).1[t]? = some (numbered.2 + i + 1) := by
  induction tps generalizing numbered with
  | nil => simp
  | cons tp tps ih =>
    obtain ⟨hnew, hnodup⟩ := List.nodup_cons.mp hnodup
    obtain ⟨hcount, hother, hnumber⟩ := ih hnodup (numberNext numbered tp)
    rw [List.foldl_cons]
    refine ⟨?_, ?_, ?_⟩
    · rw [hcount, numberNext, List.length_cons]
      omega
    · intro t ht
      rw [List.mem_cons, not_or] at ht
      obtain ⟨hne, ht⟩ := ht
      rw [hother t ht, numberNext, Std.ExtTreeMap.getElem?_insert, if_neg]
      rw [compare_eq_iff_eq]
      exact fun heq => hne heq.symm
    · intro i t ht
      cases i with
      | zero =>
        obtain rfl := Option.some.inj ht
        rw [hother tp hnew, numberNext, Std.ExtTreeMap.getElem?_insert,
          if_pos (compare_eq_iff_eq.mpr rfl)]
      | succ i =>
        rw [hnumber i t ht, numberNext]
        congr 1
        omega

/-- The number of a time point is its position among all of them. -/
theorem column_eq {i : ℕ} (h : (timePoints history).toList[i]? = some t) :
    column history t = i + 1 := by
  obtain ⟨-, -, hnumber⟩ := foldl_numberNext (nodup_timePoints history) (∅, 0)
  rw [column, compactTps, hnumber i t h, Option.getD_some, Nat.zero_add]

/-- **The columns are strictly increasing.** -/
theorem column_lt (ht : t ∈ timePoints history) (ht' : t' ∈ timePoints history) (hlt : t < t') :
    column history t < column history t' := by
  obtain ⟨i, hi⟩ := List.mem_iff_getElem?.mp (Std.ExtTreeSet.mem_toList.mpr ht)
  obtain ⟨j, hj⟩ := List.mem_iff_getElem?.mp (Std.ExtTreeSet.mem_toList.mpr ht')
  rw [column_eq hi, column_eq hj]
  by_contra hle
  obtain ⟨hi', rfl⟩ := List.getElem?_eq_some_iff.mp hi
  obtain ⟨hj', rfl⟩ := List.getElem?_eq_some_iff.mp hj
  rcases Nat.lt_or_eq_of_le (Nat.le_of_not_lt hle) with hji | hji
  · have hordered := List.pairwise_iff_getElem.mp
      (Std.ExtTreeSet.ordered_toList (t := timePoints history)) j i hj' hi' (by omega)
    rw [compare_lt_iff_lt] at hordered
    omega
  · obtain rfl : i = j := by omega
    exact absurd hlt (Nat.lt_irrefl _)

/-- **Incomplete calls end to the right of all columns.** -/
theorem column_lt_maxTp (ht : t ∈ timePoints history) : column history t < maxTp history := by
  obtain ⟨i, hi⟩ := List.mem_iff_getElem?.mp (Std.ExtTreeSet.mem_toList.mpr ht)
  obtain ⟨hcount, -, -⟩ := foldl_numberNext (nodup_timePoints history) (∅, 0)
  have hlt : i < (timePoints history).toList.length := (List.getElem?_eq_some_iff.mp hi).1
  rw [column_eq hi, maxTp, compactTps, hcount]
  omega

/-! ## Segments and their brackets -/

variable {start stop : ℕ} {completed : Bool} {segment : String}

/-- A segment has room for its brackets exactly when its columns differ. -/
theorem exists_makeCallSegment (hlt : start < stop) (completed : Bool) :
    ∃ segment, makeCallSegment start stop completed = .ok segment ∧
      segment.toList.head? = some '[' ∧
      segment.toList.getLast? = some (if completed then ']' else '-') := by
  obtain ⟨length, hlength⟩ : ∃ length, (stop - start) * kUnitLength = length + 2 := by
    refine ⟨(stop - start) * kUnitLength - 2, ?_⟩
    rw [kUnitLength]
    omega
  have hopened : writeAt (List.replicate (length + 2) '-') 0 '['
      = .ok (('[' :: List.replicate length '-') ++ ['-']) := by
    rw [writeAt, if_pos (by simp), List.replicate_succ, List.set_cons_zero, List.replicate_succ']
    rfl
  rw [makeCallSegment, if_neg (by omega), hlength]
  dsimp only
  rw [hopened, Outcome.ok_bind]
  cases completed with
  | false =>
    refine ⟨_, rfl, ?_, ?_⟩
    · rw [String.toList_ofList]
      rfl
    · rw [String.toList_ofList, List.getLast?_concat]
      rfl
  | true =>
    have hclosed : writeAt (('[' :: List.replicate length '-') ++ ['-'])
        ((('[' :: List.replicate length '-') ++ ['-']).length - 1) ']'
          = .ok (('[' :: List.replicate length '-') ++ [']']) := by
      rw [writeAt, if_pos (by simp), List.length_append, List.length_singleton,
        Nat.add_sub_cancel, List.set_append_right _ _ (Nat.le_refl _), Nat.sub_self]
      rfl
    rw [if_pos rfl, hclosed, Outcome.ok_bind]
    refine ⟨_, rfl, ?_, ?_⟩
    · rw [String.toList_ofList]
      rfl
    · rw [String.toList_ofList, List.getLast?_concat]
      rfl

theorem lt_of_makeCallSegment (h : makeCallSegment start stop completed = .ok segment) :
    start < stop := by
  by_contra hle
  rw [makeCallSegment] at h
  split at h
  · cases h
  · -- the string is empty, so the first write is out of bounds
    have hempty : (stop - start) * kUnitLength = 0 := by
      rw [Nat.sub_eq_zero_of_le (Nat.le_of_not_lt hle), Nat.zero_mul]
    rw [hempty] at h
    cases h

/-- The columns of a call differ exactly when it is incomplete or ends later than it starts. -/
theorem startTs_lt_endTs_iff {call : Call} (hcall : call ∈ history) :
    startTs history call < endTs history call ↔
      ∀ t, call.endTime = some t → call.startTime < t := by
  have hstart : call.startTime ∈ timePoints history :=
    mem_timePoints.mpr ⟨call, hcall, Or.inl rfl⟩
  rw [startTs, endTs]
  cases hend : call.endTime with
  | none =>
    apply iff_of_true (column_lt_maxTp hstart)
    intro t ht
    cases ht
  | some endTime =>
    have hstop : endTime ∈ timePoints history := mem_timePoints.mpr ⟨call, hcall, Or.inr hend⟩
    constructor
    · rintro hlt t ht
      obtain rfl := Option.some.inj ht
      by_contra hle
      rcases Nat.lt_or_eq_of_le (Nat.le_of_not_lt hle) with hback | rfl
      · exact absurd (column_lt hstop hstart hback) (Nat.lt_asymm hlt)
      · exact absurd hlt (Nat.lt_irrefl _)
    · exact fun h => column_lt hstart hstop (h endTime rfl)

/-- A call that does not end at its start has a segment. -/
theorem exists_callSegment {call : Call} (hcall : call ∈ history)
    (hlater : ∀ t, call.endTime = some t → call.startTime < t) :
    ∃ segment, callSegment history call = .ok segment ∧ segment.toList.head? = some '[' ∧
      segment.toList.getLast? = some (if call.isCompleted then ']' else '-') :=
  exists_makeCallSegment ((startTs_lt_endTs_iff hcall).mpr hlater) _

/-! ## The whole text -/

/-- What is printed for each item of a list is in the text. -/
theorem exists_foldlM_append {α β : Type} {f : α → Outcome β} {g : α → β → String} {items : List α}
    (h : ∀ item ∈ items, ∃ b, f item = .ok b) (out : String) :
    ∃ text, items.foldlM (fun out item => do
        let b ← f item
        return out ++ g item b) out = .ok text ∧
      (∃ after, text = out ++ after) ∧
      ∀ item ∈ items, ∃ b before after, f item = .ok b ∧ text = before ++ g item b ++ after := by
  induction items generalizing out with
  | nil =>
    refine ⟨out, rfl, ⟨"", (String.append_empty ..).symm⟩, ?_⟩
    exact fun item hitem => absurd hitem List.not_mem_nil
  | cons item items ih =>
    obtain ⟨b, hb⟩ := h item (List.mem_cons_self ..)
    obtain ⟨text, hrun, ⟨after, rfl⟩, hitems⟩ :=
      ih (fun item' hitem' => h item' (List.mem_cons_of_mem _ hitem')) (out ++ g item b)
    refine ⟨out ++ g item b ++ after, ?_, ⟨g item b ++ after, String.append_assoc ..⟩, ?_⟩
    · rw [List.foldlM_cons, hb, Outcome.ok_bind]
      exact hrun
    · intro item' hitem'
      rcases List.mem_cons.mp hitem' with rfl | hitem'
      · exact ⟨b, out, after, hb, rfl⟩
      · exact hitems item' hitem'

/-- A history is printed: the columns keep the order of the time points, incomplete calls end
to the right of them, and every call has a segment with its brackets in the text. -/
structure Shows (printCall : Call → String) (history : History) : Prop where
  increasing : ∀ t ∈ timePoints history, ∀ t' ∈ timePoints history, t < t' →
    column history t < column history t'
  beyond : ∀ call ∈ history, call.isCompleted = false → ∀ t ∈ timePoints history,
    column history t < endTs history call
  /-- Every segment is made, with its writes in bounds, and is not empty. -/
  segments : ∀ call ∈ history, ∃ segment, callSegment history call = .ok segment ∧
    segment.toList.head? = some '[' ∧
    (call.isCompleted = true → segment.toList.getLast? = some ']')
  printed : ∃ text, print printCall history = .ok text ∧
    ∀ i call, history[i]? = some call → ∃ segment before after,
      callSegment history call = .ok segment ∧
      text = before ++ callLines printCall history call i segment ++ after

/-- A history whose completed calls end later than they start is printed. -/
theorem shows_of_lt (printCall : Call → String)
    (hlater : ∀ call ∈ history, ∀ t, call.endTime = some t → call.startTime < t) :
    Shows printCall history := by
  constructor
  · exact fun t ht t' ht' => column_lt ht ht'
  · intro call hcall hcompleted t ht
    rw [Call.isCompleted, Option.isSome_eq_false_iff, Option.isNone_iff_eq_none] at hcompleted
    rw [endTs, hcompleted]
    exact column_lt_maxTp ht
  · intro call hcall
    obtain ⟨segment, hsegment, hhead, hlast⟩ := exists_callSegment hcall (hlater call hcall)
    refine ⟨segment, hsegment, hhead, fun hcompleted => ?_⟩
    rwa [if_pos hcompleted] at hlast
  · have hok : ∀ item ∈ history.zipIdx, ∃ segment, callSegment history item.1 = .ok segment := by
      intro item hitem
      have hcall := List.fst_mem_of_mem_zipIdx hitem
      obtain ⟨segment, hsegment, -⟩ := exists_callSegment hcall (hlater item.1 hcall)
      exact ⟨segment, hsegment⟩
    obtain ⟨text, htext, -, hall⟩ := exists_foldlM_append
      (g := fun item segment => callLines printCall history item.1 item.2 segment) hok ""
    refine ⟨text, htext, fun i call hcall => ?_⟩
    exact hall (call, i) (List.mem_zipIdx_iff_getElem?.mpr hcall)

/-- **Printing is in bounds** exactly when every completed call ends later than it starts: a
call that ends at its start has an empty segment.  An incomplete call has no closing bracket,
so every call has both brackets if and only if moreover all calls are completed. -/
theorem shows_iff (printCall : Call → String) (history : History) :
    (Shows printCall history ↔
      ∀ call ∈ history, ∀ t, call.endTime = some t → call.startTime < t) ∧
    ((Shows printCall history ∧ ∀ call ∈ history, ∀ segment,
        callSegment history call = .ok segment → segment.toList.getLast? = some ']') ↔
      ∀ call ∈ history, ∃ t, call.endTime = some t ∧ call.startTime < t) := by
  have hshows : Shows printCall history ↔
      ∀ call ∈ history, ∀ t, call.endTime = some t → call.startTime < t := by
    constructor
    · intro hshows call hcall
      obtain ⟨segment, hsegment, -⟩ := hshows.segments call hcall
      exact (startTs_lt_endTs_iff hcall).mp (lt_of_makeCallSegment hsegment)
    · exact shows_of_lt printCall
  refine ⟨hshows, ?_⟩
  rw [hshows]
  constructor
  · rintro ⟨hlater, hclosed⟩ call hcall
    cases hend : call.endTime with
    | none =>
      obtain ⟨segment, hsegment, -, hlast⟩ := exists_callSegment hcall (hlater call hcall)
      rw [hclosed call hcall segment hsegment, Call.isCompleted, hend] at hlast
      exact absurd (Option.some.inj hlast) (by decide)
    | some endTime => exact ⟨endTime, rfl, hlater call hcall endTime hend⟩
  · intro hcompleted
    have hlater : ∀ call ∈ history, ∀ t, call.endTime = some t → call.startTime < t := by
      intro call hcall t ht
      obtain ⟨t', ht', hlt⟩ := hcompleted call hcall
      obtain rfl := Option.some.inj (ht.symm.trans ht')
      exact hlt
    refine ⟨hlater, fun call hcall segment hsegment => ?_⟩
    obtain ⟨segment', hsegment', -, hlast⟩ := exists_callSegment hcall (hlater call hcall)
    obtain rfl := Except.ok.inj (hsegment.symm.trans hsegment')
    obtain ⟨t, ht, -⟩ := hcompleted call hcall
    rw [hlast, Call.isCompleted, ht]
    rfl

/-- A call that is completed at the virtual time at which it was started. -/
def instantEvents : List HistoryRecorder.Event :=
  [⟨5, .callStarted "Get" []⟩, ⟨5, .callCompleted 1 []⟩]

/-- The recorder makes a history that cannot be printed, of a call with an empty segment. -/
theorem not_shows_instantEvents :
    ¬ ∀ (printCall : Call → String) (events : List HistoryRecorder.Event) (r : HistoryRecorder),
      events.Pairwise (·.now ≤ ·.now) → HistoryRecorder.run events = .ok r →
        (∀ call ∈ r.getHistory, ∀ t, call.endTime = some t → call.startTime ≤ t) →
          Shows printCall r.getHistory := by
  intro h
  obtain ⟨r, hrun, hhistory⟩ : ∃ r, HistoryRecorder.run instantEvents = .ok r ∧
      r.getHistory = [⟨"Get", ⟨[]⟩, some ⟨[]⟩, 5, some 5, []⟩] := ⟨_, rfl, rfl⟩
  have hends : ∀ call ∈ r.getHistory, ∀ t, call.endTime = some t → call.startTime ≤ t := by
    rw [hhistory]
    intro call hcall t ht
    obtain rfl := List.mem_singleton.mp hcall
    exact Nat.le_of_eq (Option.some.inj ht)
  have hshows := h (fun _ => "") instantEvents r (by decide) hrun hends
  rw [hhistory] at hshows
  have hcall := List.mem_singleton_self (⟨"Get", ⟨[]⟩, some ⟨[]⟩, 5, some 5, []⟩ : Call)
  obtain ⟨segment, hsegment, -⟩ := hshows.segments _ hcall
  have hlater := (startTs_lt_endTs_iff hcall).mp (lt_of_makeCallSegment hsegment) 5 rfl
  exact absurd hlater (Nat.lt_irrefl 5)

end Whirl.Semantics
