import Noaaport.Lib.Calls
import Noaaport.Wire

/-! `noaaportLog.c`: the list of log messages that a thread accumulates, and what
`nplLog` makes of it. -/
namespace Noaaport.NoaaportLog
open Lib

/-- A buffer that has been allocated and not written to holds nothing. -/
structure Message where
  string : Option Text
  size : Nat

/-- The messages from `first` to `last`, and the ones behind `last` that earlier lists have
left. `last` is NULL when there are none of the first kind. -/
structure MsgList where
  used : List Message
  spare : List Message

inductive Status where
  | ok
  | eagain
  deriving DecidableEq

section Functions

def nplClear (l : MsgList) : MsgList where
  used := []
  spare := l.used ++ l.spare

/-- `DEFAULT_STRING_SIZE`. -/
def newMessage : Message := ⟨none, 256⟩

/-- Without a format there is nothing to add. -/
def nplVadd (fmt : Option Text) (l : MsgList) : Status × MsgList :=
  match fmt with
  | none => (.ok, l)
  | some text =>
    match l.spare with
    | msg :: rest =>
      if msg.size ≤ text.length then
        (.eagain, { l with spare := ⟨none, text.length + 1⟩ :: rest })
      else (.ok, ⟨l.used ++ [{ msg with string := some text }], rest⟩)
    | [] =>
      -- a new message with too small a buffer is in the list only if it is the very first
      if newMessage.size ≤ text.length then
        (.eagain, if l.used.isEmpty then { l with spare := [⟨none, text.length + 1⟩] } else l)
      else (.ok, ⟨l.used ++ [{ newMessage with string := some text }], []⟩)

/-- The call and its repetition, as in all four functions. -/
def nplAdd (fmt : Option Text) (l : MsgList) : MsgList :=
  match nplVadd fmt l with
  | (.eagain, l) => (nplVadd fmt l).2
  | (.ok, l) => l

def nplStart (fmt : Option Text) (l : MsgList) : MsgList := nplAdd fmt (nplClear l)

def startError (error : Text) (fmt : Option Text) (l : MsgList) : MsgList :=
  nplAdd fmt (nplStart (some error) l)

variable (strerror : Int → Text)

def nplErrno (errno : Int) (fmt : Option Text) (l : MsgList) : MsgList :=
  startError (strerror errno) fmt l

def nplErrnum (errnum : Int) (fmt : Option Text) (l : MsgList) : MsgList :=
  startError (strerror errnum) fmt l

/-- What is handed to `ulog`, and the list. -/
def nplLog (enabled : Bool) (l : MsgList) : List (Option Text) × MsgList :=
  if l.used.isEmpty then ([], l)
  else (if enabled then l.used.map Message.string else [], nplClear l)

end Functions

inductive Op where
  | start (fmt : Option Text)
  | add (fmt : Option Text)
  | errno (errno : Int) (fmt : Option Text)
  | errnum (errnum : Int) (fmt : Option Text)
  | log (enabled : Bool)

section Calls
variable (strerror : Int → Text)

def run : Op → MsgList → List (Option Text) × MsgList
  | .start fmt, l => ([], nplStart fmt l)
  | .add fmt, l => ([], nplAdd fmt l)
  | .errno n fmt, l => ([], nplErrno strerror n fmt l)
  | .errnum n fmt, l => ([], nplErrnum strerror n fmt l)
  | .log enabled, l => nplLog enabled l

/-- What a list of messages is for: the texts recorded since it was started. -/
def recorded : Op → List Text → List Text
  | .start fmt, _ => fmt.toList
  | .add fmt, pending => pending ++ fmt.toList
  | .errno n fmt, _ => strerror n :: fmt.toList
  | .errnum n fmt, _ => strerror n :: fmt.toList
  | .log _, _ => []

def emitted : Op → List Text → List Text
  | .log true, pending => pending
  | _, _ => []

/-- A thread's list, with the texts that should be in it. -/
structure World where
  list : MsgList
  pending : List Text

def World.start : World := ⟨⟨[], []⟩, []⟩

def call (op : Op) (w : World) : Option World :=
  some ⟨(run strerror op w.list).2, recorded strerror op w.pending⟩

/-- The list holds these texts, whole and in order. -/
def Records (l : MsgList) (texts : List Text) : Prop :=
  l.used.map Message.string = texts.map some

instance (l : MsgList) (texts : List Text) : Decidable (Records l texts) :=
  inferInstanceAs (Decidable (_ = _))

/-- The call emits what has been recorded, and the list holds what a later one should emit. -/
structure Faithful (w : World) (op : Op) : Prop where
  emits : (run strerror op w.list).1 = (emitted op w.pending).map some
  records : Records (run strerror op w.list).2 (recorded strerror op w.pending)

/-- A long text for a message that has to be new and is not the first of its list. -/
def Loses (w : World) : Op → Prop
  | .add (some text) => 256 ≤ text.length ∧ w.list.used ≠ [] ∧ w.list.spare = []
  | .errno _ (some text) => 256 ≤ text.length ∧ (w.list.used ++ w.list.spare).length ≤ 1
  | .errnum _ (some text) => 256 ≤ text.length ∧ (w.list.used ++ w.list.spare).length ≤ 1
  | _ => False

end Calls

section Adding
variable {l : MsgList} {text : Text} {texts : List Text} {fmt : Option Text}

/-- A second call finds the larger buffer, where it is in the list. -/
theorem nplAdd_text (h : ¬ (256 ≤ text.length ∧ l.used ≠ [] ∧ l.spare = [])) :
    ∃ msg : Message, msg.string = some text ∧
      nplAdd (some text) l = ⟨l.used ++ [msg], l.spare.tail⟩ := by
  obtain ⟨used, spare⟩ := l
  have hfits : ¬ text.length + 1 ≤ text.length := Nat.not_succ_le_self _
  unfold nplAdd nplVadd
  cases spare with
  | cons msg rest =>
    by_cases hsize : msg.size ≤ text.length
    · refine ⟨⟨some text, text.length + 1⟩, rfl, ?_⟩
      simp [hsize, hfits]
    · refine ⟨{ msg with string := some text }, rfl, ?_⟩
      simp [hsize]
  | nil =>
    by_cases hsize : 256 ≤ text.length
    · have hused : used = [] := by
        by_contra hne
        exact h ⟨hsize, hne, rfl⟩
      subst hused
      refine ⟨⟨some text, text.length + 1⟩, rfl, ?_⟩
      simp [newMessage, hsize, hfits]
    · refine ⟨⟨some text, 256⟩, rfl, ?_⟩
      simp [newMessage, hsize]

/-- Otherwise each of the two calls makes a message of its own and drops it. -/
theorem nplAdd_lost (hlen : 256 ≤ text.length) (hused : l.used ≠ []) (hspare : l.spare = []) :
    nplAdd (some text) l = l := by
  have hv : nplVadd (some text) l = (.eagain, l) := by
    simp [nplVadd, hspare, newMessage, hlen, hused]
  unfold nplAdd
  simp only [hv]

theorem Records.nplAdd_iff (h : Records l texts) :
    Records (nplAdd (some text) l) (texts ++ [text]) ↔
      ¬ (256 ≤ text.length ∧ l.used ≠ [] ∧ l.spare = []) := by
  constructor
  · rintro hr ⟨hlen, hused, hspare⟩
    rw [nplAdd_lost hlen hused hspare] at hr
    have hlength := congrArg List.length (hr.symm.trans h)
    simp at hlength
  · intro hnot
    obtain ⟨msg, hmsg, heq⟩ := nplAdd_text hnot
    unfold Records at h ⊢
    rw [heq]
    simp [h, hmsg]

/-- The first message of a list is never lost. -/
theorem nplStart_text (l : MsgList) (text : Text) :
    Records (nplStart (some text) l) [text] ∧ (nplStart (some text) l).used ≠ [] ∧
      (nplStart (some text) l).spare = (l.used ++ l.spare).tail := by
  have hempty : ¬ (256 ≤ text.length ∧ (nplClear l).used ≠ [] ∧ (nplClear l).spare = []) :=
    fun h => h.2.1 rfl
  obtain ⟨msg, hmsg, heq⟩ := nplAdd_text hempty
  have hstart : nplStart (some text) l = ⟨[msg], (l.used ++ l.spare).tail⟩ := heq
  rw [hstart]
  exact ⟨by simp [Records, hmsg], List.cons_ne_nil _ _, rfl⟩

theorem Records.startError_iff (l : MsgList) (error text : Text) :
    Records (startError error (some text) l) [error, text] ↔
      ¬ (256 ≤ text.length ∧ (l.used ++ l.spare).length ≤ 1) := by
  obtain ⟨hr, hused, hspare⟩ := nplStart_text l error
  have htail : (l.used ++ l.spare).tail = [] ↔ (l.used ++ l.spare).length ≤ 1 := by
    rw [← List.length_eq_zero_iff, List.length_tail]
    omega
  have hiff : Records (nplAdd (some text) (nplStart (some error) l)) ([error] ++ [text]) ↔
      ¬ (256 ≤ text.length ∧ (nplStart (some error) l).used ≠ [] ∧
        (nplStart (some error) l).spare = []) :=
    hr.nplAdd_iff
  rw [hspare, htail] at hiff
  exact hiff.trans (not_congr (and_congr_right fun _ => and_iff_right hused))

end Adding

section Law
variable {strerror : Int → Text} {w : World} {op : Op}

theorem Records.empty {l : MsgList} : Records l [] ↔ l.used = [] := by
  simp [Records]

theorem Records.log {enabled : Bool} {l : MsgList} {texts : List Text} (h : Records l texts) :
    (nplLog enabled l).1 = (emitted (.log enabled) texts).map some ∧
      Records (nplLog enabled l).2 [] := by
  unfold nplLog
  cases hused : l.used with
  | nil =>
    have htexts : texts = [] := by
      unfold Records at h
      rw [hused] at h
      simpa using h.symm
    subst htexts
    exact ⟨by cases enabled <;> rfl, Records.empty.2 hused⟩
  | cons msg rest =>
    have hfirst : (if enabled then l.used.map Message.string else []) =
        (emitted (.log enabled) texts).map some := by
      cases enabled with
      | false => rfl
      | true => exact h
    rw [← hused, List.isEmpty_eq_false_iff.2 (by rw [hused]; exact List.cons_ne_nil _ _)]
    exact ⟨hfirst, Records.empty.2 rfl⟩

/-- A call does what it is for exactly if it does not lose its text. -/
theorem faithful_iff (h : Records w.list w.pending) :
    Faithful strerror w op ↔ ¬ Loses w op := by
  have hadding : ∀ l' texts, run strerror op w.list = ([], l') → emitted op w.pending = [] →
      recorded strerror op w.pending = texts → (Faithful strerror w op ↔ Records l' texts) := by
    intro l' texts hrun hemit hrec
    constructor
    · intro hf
      have hr := hf.records
      rw [hrun, hrec] at hr
      exact hr
    · intro hr
      exact ⟨by rw [hrun, hemit]; rfl, by rw [hrun, hrec]; exact hr⟩
  cases op with
  | start fmt =>
    refine (hadding _ _ rfl rfl rfl).trans ⟨fun _ => id, fun _ => ?_⟩
    cases fmt with
    | none => exact Records.empty.2 rfl
    | some text => exact (nplStart_text w.list text).1
  | add fmt =>
    refine (hadding _ _ rfl rfl rfl).trans ?_
    cases fmt with
    | none =>
      refine ⟨fun _ => id, fun _ => ?_⟩
      change Records w.list (w.pending ++ [])
      rw [List.append_nil]
      exact h
    | some text => exact h.nplAdd_iff
  | errno n fmt =>
    refine (hadding _ _ rfl rfl rfl).trans ?_
    cases fmt with
    | none => exact ⟨fun _ => id, fun _ => (nplStart_text w.list (strerror n)).1⟩
    | some text => exact Records.startError_iff ..
  | errnum n fmt =>
    refine (hadding _ _ rfl rfl rfl).trans ?_
    cases fmt with
    | none => exact ⟨fun _ => id, fun _ => (nplStart_text w.list (strerror n)).1⟩
    | some text => exact Records.startError_iff ..
  | log enabled => exact ⟨fun _ => id, fun _ => ⟨h.log.1, h.log.2⟩⟩

/-- Along any sequence of calls the messages are all there, and come out, exactly as long
as no long text meets a list that needs a new message behind its first one. -/
theorem messages_kept_iff (strerror : Int → Text) (ops : List Op) :
    Throughout (call strerror) (Faithful strerror) .start ops ↔
      Throughout (call strerror) (fun w op => ¬ Loses w op) .start ops := by
  refine Throughout.iff_of_invariant (A := fun _ _ => True)
    (I := fun w => Records w.list w.pending) ?_ ?_ (Records.empty.2 rfl) (Throughout.of_true _ _)
  · exact fun w op h _ => faithful_iff h
  · rintro w op w' - - hf hc
    cases hc
    exact hf.records

/-- A second message of 256 bytes is gone. -/
theorem long_message_lost :
    ¬ Throughout (call fun _ => []) (Faithful fun _ => []) .start
        [.start (some [120]), .add (some (List.replicate 256 121))] ∧
      (nplLog true (nplAdd (some (List.replicate 256 121)) (nplStart (some [120]) ⟨[], []⟩))).1 =
        [some [120]] := by
  have hstart : nplStart (some [120]) ⟨[], []⟩ = ⟨[⟨some [120], 256⟩], []⟩ := by rfl
  have hlost : nplAdd (some (List.replicate 256 121)) (nplStart (some [120]) ⟨[], []⟩) =
      ⟨[⟨some [120], 256⟩], []⟩ := by
    rw [hstart]
    exact nplAdd_lost (Nat.le_of_eq List.length_replicate.symm) (List.cons_ne_nil _ _) rfl
  refine ⟨fun h => ?_, by rw [hlost]; rfl⟩
  have hf : Faithful (fun _ => []) ⟨nplStart (some [120]) ⟨[], []⟩, [[120]]⟩
      (.add (some (List.replicate 256 121))) := (h.2 _ rfl).1
  refine (faithful_iff ?_).1 hf ⟨Nat.le_of_eq List.length_replicate.symm, ?_, ?_⟩
  · exact (nplStart_text ⟨[], []⟩ [120]).1
  · exact (nplStart_text ⟨[], []⟩ [120]).2.1
  · exact (nplStart_text ⟨[], []⟩ [120]).2.2

end Law
end Noaaport.NoaaportLog
