import DBusLog.Core.Handlers
import DBusLog.Sender.Descriptors

/-!
# The descriptors of all senders

Nothing that happens in a core makes a descriptor of a sender come or go, but for the senders
closing theirs. That holds also for the senders that are left when the core itself has gone.
-/

namespace DBusLog

namespace DBusLogCore

/-- `dbus_log_core_dispose`. The handlers are removed before the senders are released. -/
def dispose (c : DBusLogCore) : DBusLogCore :=
  let c := c.registered.foldl (fun c sender =>
    let c := c.removeHandler sender (((c.senderSignalIds.lookup sender).map Prod.snd).getD 0)
    { c with senderSignalIds := c.senderSignalIds.erase sender }) c
  { c with
    arrays := c.arrays.modify c.senders fun array => { array with value := [] }
    categories := .empty }

/-- `dbus_log_core_finalize` -/
def finalize (c : DBusLogCore) : DBusLogCore := { c with arrays := c.arrays.unref c.senders }

/-- The senders of `c` are still there, and have given nothing away. -/
structure Conserves (c c' : DBusLogCore) : Prop where
  objects : c'.objects.length = c.objects.length
  senders : ∀ i d, c.senderAt i = some d →
    ∃ d', c'.senderAt i = some d' ∧ DBusLogSender.Conserved d d'

section Conserves

variable {c c' c'' : DBusLogCore}

theorem Conserves.of_senderAt (hlength : c'.objects.length = c.objects.length)
    (hsenders : ∀ i, c'.senderAt i = c.senderAt i) : Conserves c c' :=
  ⟨hlength, fun i d hd => ⟨d, (hsenders i).trans hd, .refl d⟩⟩

theorem Conserves.refl (c : DBusLogCore) : Conserves c c := .of_senderAt rfl fun _ => rfl

theorem Conserves.trans (h : Conserves c c') (h' : Conserves c' c'') : Conserves c c'' where
  objects := h'.objects.trans h.objects
  senders i d hd := by
    obtain ⟨d', hd', hmoved⟩ := h.senders i d hd
    obtain ⟨d'', hd'', hmoved'⟩ := h'.senders i d' hd'
    exact ⟨d'', hd'', hmoved.trans hmoved'⟩

/-- Where a sender comes from. -/
theorem Conserves.senderAt (h : Conserves c c') {i : Nat} {d' : DBusLogSender}
    (hd' : c'.senderAt i = some d') :
    ∃ d, c.senderAt i = some d ∧ DBusLogSender.Conserved d d' := by
  obtain ⟨d, hd⟩ := exists_senderAt (h.objects ▸ lt_of_senderAt hd')
  obtain ⟨d₁, hd₁, hmoved⟩ := h.senders i d hd
  cases hd'.symm.trans hd₁
  exact ⟨d, hd, hmoved⟩

theorem Conserves.foldl {α : Type} {f : DBusLogCore → α → DBusLogCore}
    (hf : ∀ c a, Conserves c (f c a)) (as : List α) (c : DBusLogCore) :
    Conserves c (as.foldl f c) := by
  induction as generalizing c with
  | nil => exact .refl c
  | cons a as ih => exact (hf c a).trans (ih (f c a))

theorem removeHandler_conserves (c : DBusLogCore) (sender id : Nat) :
    Conserves c (c.removeHandler sender id) := by
  obtain ⟨objects, he, hlength, hsenders⟩ := removeHandler_frame c sender id
  rw [he]
  exact .of_senderAt hlength hsenders

theorem touch_objects (c : DBusLogCore) (array : Nat) : (c.touch array).objects = c.objects := by
  unfold touch
  split
  · rfl
  · rfl

/-- A sender leaves the array as it is, also when the memory of the core has gone. -/
theorem removeSender_senderAt (c : DBusLogCore) (i : Nat) :
    (c.removeSender i).2.objects.length = c.objects.length ∧
      ∀ j, (c.removeSender i).2.senderAt j = c.senderAt j := by
  have htouch : (c.touch c.senders).objects = c.objects := touch_objects c c.senders
  unfold removeSender
  dsimp only
  split
  · refine ⟨by rw [htouch], fun j => ?_⟩
    unfold senderAt
    rw [htouch]
  · obtain ⟨objects, he, hlength, hsenders⟩ := removeHandler_frame (c.touch c.senders) i
      ((((c.touch c.senders).senderSignalIds.lookup i).map Prod.snd).getD 0)
    rw [he]
    refine ⟨hlength.trans (by rw [htouch]), fun j => (hsenders j).trans ?_⟩
    rw [htouch]
    rfl

/-- A call into a sender changes no other sender. -/
theorem runSender_senderAt {i : Nat} (hi : i < c.objects.length)
    (f : DBusLogSender → DBusLogSender) :
    (c.runSender i f).objects.length = c.objects.length ∧
      ∀ j, (c.runSender i f).senderAt j =
        if j = i then (c.senderAt j).map f else c.senderAt j := by
  have hobject : c.objects[i]? = some c.objects[i] := List.getElem?_eq_getElem hi
  have hset : ∀ j, senderAt { c with
      objects := c.objects.set i { c.objects[i] with sender := f c.objects[i].sender } } j =
      if j = i then (c.senderAt j).map f else c.senderAt j := by
    intro j
    unfold senderAt
    by_cases hj : j = i
    · subst hj
      rw [if_pos rfl, List.getElem?_set_self hi, hobject]
      rfl
    · rw [if_neg hj, List.getElem?_set_ne (Ne.symm hj)]
  unfold runSender
  rw [hobject]
  dsimp only
  split
  · obtain ⟨hlength, hsenders⟩ := removeSender_senderAt { c with
      objects := c.objects.set i { c.objects[i] with sender := f c.objects[i].sender } } i
    exact ⟨hlength.trans List.length_set, fun j => (hsenders j).trans (hset j)⟩
  · exact ⟨List.length_set, hset⟩

theorem runSender_conserves (c : DBusLogCore) (i : Nat) {f : DBusLogSender → DBusLogSender}
    (hf : ∀ d, c.senderAt i = some d → DBusLogSender.Conserved d (f d)) :
    Conserves c (c.runSender i f) := by
  by_cases hi : i < c.objects.length
  · obtain ⟨hlength, hsenders⟩ := runSender_senderAt hi f
    refine ⟨hlength, fun j d hd => ?_⟩
    rw [hsenders j]
    by_cases hj : j = i
    · subst hj
      rw [if_pos rfl, hd]
      exact ⟨f d, rfl, hf d hd⟩
    · rw [if_neg hj]
      exact ⟨d, hd, .refl d⟩
  · unfold runSender
    rw [List.getElem?_eq_none (Nat.le_of_not_lt hi)]
    exact .of_senderAt rfl fun _ => rfl

theorem handCall_conserved (ctx : LogContext) (msg : DBusLogMessage) (sender : Nat)
    (d : DBusLogSender) : DBusLogSender.Conserved d (handCall ctx msg sender d) := by
  have hstep := step_handStep ctx msg sender d
  exact DBusLogSender.step_conserved hstep

theorem logMessage_conserves (h : Sound [] c) (ctx : LogContext) (level : Level)
    (cname : Option String) {msg : DBusLogMessage} (hcategory : msg.category = 0) :
    Conserves c (c.logMessage ctx level cname msg).2 := by
  obtain hsame | ⟨_, hcall⟩ := logMessage_cases h ctx level cname hcategory
  · rw [hsame]
    exact .refl c
  · refine ⟨hcall.objects, fun j d hd => ?_⟩
    rw [hcall.senders j]
    split
    · change ∃ d', (c.senderAt j).map _ = some d' ∧ _
      rw [hd]
      exact ⟨_, rfl, handCall_conserved ctx _ j d⟩
    · exact ⟨d, hd, .refl d⟩

theorem dispose_conserves (c : DBusLogCore) : Conserves c c.dispose := by
  unfold dispose
  dsimp only
  refine (Conserves.foldl (fun c sender => ?_) c.registered c).trans (.of_senderAt rfl fun _ => rfl)
  exact (removeHandler_conserves c sender _).trans (.of_senderAt rfl fun _ => rfl)

theorem finalize_conserves (c : DBusLogCore) : Conserves c c.finalize :=
  .of_senderAt rfl fun _ => rfl

end Conserves

end DBusLogCore

end DBusLog
