import DBusLog.Sender.Recursion

/-!
# The number of nested calls of `write`

`WriteRun` and `ScheduleRun` are the two functions as the source writes them, without fuel, as
evaluation relations that count the calls of `write`. Each of the nested calls has a packet of its
own: the one in flight when the first call starts, the queued messages, and BYE.
-/

namespace DBusLog.DBusLogSender

mutual

/-- `dbus_log_sender_write` returns `more` and leaves `t`; `n` calls of `write` have been made,
this one included. -/
inductive WriteRun : DBusLogSender → Bool → DBusLogSender → Nat → Prop
  | wait {s t : DBusLogSender} (hp : s.writePacket = (.wait, t)) : WriteRun s true t 1
  | failed {s t : DBusLogSender} (hp : s.writePacket = (.failed, t)) : WriteRun s false t.fail 1
  | stop {s t u : DBusLogSender} (hp : s.writePacket = (.sent, t))
      (hn : t.nextPacket = (false, u)) : WriteRun s false u.finish 1
  | next {s t u v : DBusLogSender} {n : Nat} (hp : s.writePacket = (.sent, t))
      (hn : t.nextPacket = (true, u)) (hrun : ScheduleRun u v n) : WriteRun s true v (n + 1)

/-- `dbus_log_sender_schedule_write` returns and leaves `t` after `n` calls of `write`. -/
inductive ScheduleRun : DBusLogSender → DBusLogSender → Nat → Prop
  | idle {s : DBusLogSender} (hc : ¬ (s.io.isSome ∧ s.writeWatchId = 0)) : ScheduleRun s s 0
  | watch {s t : DBusLogSender} {n : Nat} (hc : s.io.isSome ∧ s.writeWatchId = 0)
      (hrun : WriteRun s true t n) : ScheduleRun s t.addWatch n
  | done {s t : DBusLogSender} {n : Nat} (hc : s.io.isSome ∧ s.writeWatchId = 0)
      (hrun : WriteRun s false t n) : ScheduleRun s t n

end

/-- `schedule_write` runs exactly as the `write` that it calls. -/
theorem scheduleRun_iff_of_write {s t : DBusLogSender} {n m : Nat}
    (hc : s.io.isSome ∧ s.writeWatchId = 0)
    (hw : ∀ more v k, WriteRun s more v k ↔ more = s.write.1 ∧ v = s.write.2 ∧ k = n) :
    ScheduleRun s t m ↔ t = s.scheduleWrite ∧ m = n := by
  rw [scheduleWrite_eq, if_pos hc]
  constructor
  · intro h
    cases h with
    | idle hidle => exact absurd hc hidle
    | watch _ hrun =>
      obtain ⟨hmore, rfl, rfl⟩ := (hw _ _ _).mp hrun
      rw [if_pos hmore.symm]
      exact ⟨rfl, rfl⟩
    | done _ hrun =>
      obtain ⟨hmore, rfl, rfl⟩ := (hw _ _ _).mp hrun
      rw [← hmore, if_neg Bool.false_ne_true]
      exact ⟨rfl, rfl⟩
  · rintro ⟨rfl, rfl⟩
    cases hmore : s.write.1 with
    | true => exact .watch hc ((hw _ _ _).mpr ⟨hmore.symm, rfl, rfl⟩)
    | false => exact .done hc ((hw _ _ _).mpr ⟨hmore.symm, rfl, rfl⟩)

theorem scheduleRun_iff_of_idle {s t : DBusLogSender} {m : Nat}
    (hc : ¬ (s.io.isSome ∧ s.writeWatchId = 0)) :
    ScheduleRun s t m ↔ t = s.scheduleWrite ∧ m = 0 := by
  rw [scheduleWrite_eq, if_neg hc]
  constructor
  · intro h
    cases h with
    | idle => exact ⟨rfl, rfl⟩
    | watch hopen _ => exact absurd hopen hc
    | done hopen _ => exact absurd hopen hc
  · rintro ⟨rfl, rfl⟩
    exact .idle hc

/-- `write` has one run. The induction is on the packets that are still to be prepared: a nested
call starts with one packet less. -/
theorem exists_writeRun_iff (s : DBusLogSender) :
    ∃ n, n ≤ s.queued + 1 ∧
      ∀ more t m, WriteRun s more t m ↔ more = s.write.1 ∧ t = s.write.2 ∧ m = n := by
  induction hk : s.queued using Nat.strongRecOn generalizing s with
  | ind k ih =>
    obtain ⟨out, t, hp⟩ : ∃ out t, s.writePacket = (out, t) := ⟨_, _, rfl⟩
    cases out with
    | wait =>
      refine ⟨1, by omega, fun more v m => ?_⟩
      rw [write_wait hp]
      constructor
      · intro h
        cases h <;> simp_all
      · rintro ⟨rfl, rfl, rfl⟩
        exact .wait hp
    | failed =>
      refine ⟨1, by omega, fun more v m => ?_⟩
      rw [write_failed hp]
      constructor
      · intro h
        cases h <;> simp_all
      · rintro ⟨rfl, rfl, rfl⟩
        exact .failed hp
    | sent =>
      obtain ⟨more, u, hn⟩ : ∃ more u, t.nextPacket = (more, u) := ⟨_, _, rfl⟩
      cases more with
      | false =>
        refine ⟨1, by omega, fun more v m => ?_⟩
        rw [write_stop hp hn]
        constructor
        · intro h
          cases h <;> simp_all
        · rintro ⟨rfl, rfl, rfl⟩
          exact .stop hp hn
      | true =>
        -- one packet less is queued when `schedule_write` calls `write` again
        have hq := nextPacket_queued hn
        rw [writePacket_queued hp] at hq
        obtain ⟨n, hle, hrun⟩ : ∃ n, n ≤ u.queued + 1 ∧
            ∀ v m, ScheduleRun u v m ↔ v = u.scheduleWrite ∧ m = n := by
          by_cases hc : u.io.isSome ∧ u.writeWatchId = 0
          · obtain ⟨n, hle, hw⟩ := ih u.queued (by omega) u rfl
            exact ⟨n, hle, fun v m => scheduleRun_iff_of_write hc hw⟩
          · exact ⟨0, Nat.zero_le _, fun v m => scheduleRun_iff_of_idle hc⟩
        refine ⟨n + 1, by omega, fun more v m => ?_⟩
        rw [write_next hp hn]
        constructor
        · intro h
          cases h with
          | wait hp' => cases hp.symm.trans hp'
          | failed hp' => cases hp.symm.trans hp'
          | stop hp' hn' =>
            cases hp.symm.trans hp'
            cases hn.symm.trans hn'
          | next hp' hn' hr =>
            cases hp.symm.trans hp'
            cases hn.symm.trans hn'
            obtain ⟨rfl, rfl⟩ := (hrun _ _).mp hr
            exact ⟨rfl, rfl, rfl⟩
        · rintro ⟨rfl, rfl, rfl⟩
          exact .next hp hn ((hrun _ _).mpr ⟨rfl, rfl⟩)

/-- The mutual recursion ends: `schedule_write` has one run, of at most one call of `write` for
each message in the ring and two more. -/
theorem scheduleWrite_terminates (s : DBusLogSender) :
    ∃ n, n ≤ s.buffer.size + 2 ∧ ScheduleRun s s.scheduleWrite n ∧
      ∀ t m, ScheduleRun s t m → t = s.scheduleWrite ∧ m = n := by
  by_cases hc : s.io.isSome ∧ s.writeWatchId = 0
  · obtain ⟨n, hle, hw⟩ := s.exists_writeRun_iff
    have hq := s.queued_lt
    have hrun : ∀ t m, ScheduleRun s t m ↔ t = s.scheduleWrite ∧ m = n :=
      fun t m => scheduleRun_iff_of_write hc hw
    exact ⟨n, by omega, (hrun _ _).mpr ⟨rfl, rfl⟩, fun t m h => (hrun t m).mp h⟩
  · have hrun : ∀ t m, ScheduleRun s t m ↔ t = s.scheduleWrite ∧ m = 0 :=
      fun t m => scheduleRun_iff_of_idle hc
    exact ⟨0, Nat.zero_le _, (hrun _ _).mpr ⟨rfl, rfl⟩, fun t m h => (hrun t m).mp h⟩

-- A ping in flight, no message and BYE still to come: the two calls of the bound are made.
example : ∃ t, ScheduleRun
    { (new "" 0 3 4).fillHeader 0 .ping with bye := true, answers := [.accept 5, .accept 5] } t 2 :=
  ⟨_, .watch (by decide) (.next rfl rfl (.done (by decide) (.stop rfl rfl)))⟩

end DBusLog.DBusLogSender
