import DBusLog.Receiver.Skips
import DBusLog.Sender.Stream

/-!
# Which messages an overflow cannot take

The messages that a sender gets are numbered by their indices. An overflow takes the newest half of
a full ring, rounded down, and never what is in flight; so the first message stays, and the last one
has just been put. What is kept of `n` numbered messages is `Numbered`.
-/

namespace DBusLog

/-- The kept messages are those left of `n` messages numbered from `first` on. The one that has the
largest index is among them. -/
structure Numbered (first n : Nat) (l : Ledger) : Prop where
  positions : ∃ ps, Gaps.Positions n ps ∧
    (WirePacket.messages l.kept).map (·.index) = ps.map (fun p => UInt32.ofNat (first + p)) ∧
    ∀ r < n, UInt32.ofNat (first + r) = ReceiverEvent.maxIndex → r ∈ ps

theorem numbered_empty (first : Nat) : Numbered first 0 Ledger.empty where
  positions := ⟨[], Gaps.positions_zero, rfl, fun _ hr => absurd hr (Nat.not_lt_zero _)⟩

/-- Only the kept messages matter. -/
theorem Numbered.of_messages {first n : Nat} {l l' : Ledger} (h : Numbered first n l)
    (he : WirePacket.messages l'.kept = WirePacket.messages l.kept) : Numbered first n l' := by
  obtain ⟨hpositions⟩ := h
  rw [← he] at hpositions
  exact ⟨hpositions⟩

/-- The next message is kept, after an overflow has taken the newest ones. -/
theorem Numbered.issue {first n : Nat} {l l' : Ledger} {msg : DBusLogMessage}
    (h : Numbered first n l) (stay gone : List DBusLogMessage)
    (hkept : WirePacket.messages l.kept = stay ++ gone)
    (hkept' : WirePacket.messages l'.kept = stay ++ [msg])
    (hstay : gone ≠ [] → stay ≠ []) (hgone : ∀ m ∈ gone, m.index ≠ ReceiverEvent.maxIndex)
    (hindex : msg.index = UInt32.ofNat (first + n)) : Numbered first (n + 1) l' where
  positions := by
    obtain ⟨ps, hps, hindices, hwrap⟩ := h.positions
    rw [hkept, List.map_append] at hindices
    obtain ⟨base, tail, rfl, hbase, htail⟩ := List.map_eq_append_iff.mp hindices.symm
    have hne : n ≠ 0 → base ≠ [] := by
      intro hn hnil
      rw [hnil] at hbase
      have hnone : stay = [] := List.map_eq_nil_iff.mp hbase.symm
      by_cases hg : gone = []
      · rw [hg] at htail
        refine hps.ne_nil hn ?_
        rw [hnil, List.map_eq_nil_iff.mp htail]
        rfl
      · exact hstay hg hnone
    refine ⟨base ++ [n], hps.issue hne, ?_, fun r hr hmax => ?_⟩
    · rw [hkept', List.map_append, List.map_append, hbase, List.map_singleton, List.map_singleton,
        hindex]
    · by_cases hlast : r = n
      · rw [hlast]
        exact List.mem_append_right _ List.mem_cons_self
      · rcases List.mem_append.mp (hwrap r (by omega) hmax) with hmem | hmem
        · exact List.mem_append_left _ hmem
        · have hindex : UInt32.ofNat (first + r) ∈ gone.map (·.index) := by
            rw [← htail]
            exact List.mem_map_of_mem hmem
          obtain ⟨m, hm, hmr⟩ := List.mem_map.mp hindex
          exact absurd (hmr.trans hmax) (hgone m hm)

namespace DBusLogSender

/-- The ring has room for two messages. -/
def RoomForTwo (s : DBusLogSender) : Prop := ∀ n, s.buffer.maxSize = some n → 2 ≤ n

/-- A send to an open sender with room for two. -/
theorem Numbered.send {clean : Prop} {s : DBusLogSender} {l : Ledger} {first n : Nat}
    {msg : DBusLogMessage} (h : Numbered first n l) (hinv : StreamInv clean s l)
    (hroom : s.RoomForTwo) (hdone : s.done = false)
    (hsafe : ¬s.Idle → ∀ m ∈ s.overflow, m.index ≠ ReceiverEvent.maxIndex)
    (hindex : msg.index = UInt32.ofNat (first + n)) :
    Numbered first (n + 1) (s.recordSend msg l) := by
  have hopen : ¬s.done = true := by simp [hdone]
  by_cases hidle : s.Idle
  · have hrec : s.recordSend msg l = l.issue (.message msg) := by
      unfold recordSend
      rw [if_neg hopen, if_pos (Or.inl hidle)]
    refine h.issue _ [] (List.append_nil _).symm ?_ (fun hne => absurd rfl hne)
      (fun _ hm => (nomatch hm)) hindex
    rw [hrec]
    exact WirePacket.messages_append _ _
  · obtain ⟨out, hqueue⟩ := hinv.queue hdone
    obtain ⟨stay, gone, hitems, hgone, hcase⟩ := busySend_cases hdone hidle msg l
    have hkept := hqueue.kept hdone
    rw [hitems, List.map_append, ← List.append_assoc] at hkept
    have hbase := discard_kept hkept
    obtain ⟨_, hrec⟩ | ⟨⟨hfull, hsmall⟩, _, _⟩ := hcase
    · refine h.issue (WirePacket.messages out ++ stay) gone ?_ ?_ ?_
        (fun m hm => hsafe hidle m (hgone ▸ hm)) hindex
      · rw [hkept, WirePacket.messages_append, WirePacket.messages_append,
          WirePacket.messages_map_message, WirePacket.messages_map_message]
      · rw [hrec]
        change WirePacket.messages ((l.discard gone).kept ++ [.message msg]) = _
        rw [hbase, WirePacket.messages_append, WirePacket.messages_append,
          WirePacket.messages_map_message]
        rfl
      · -- an overflow leaves the older half of the ring
        intro hne hnil
        have hlen := s.overflow_length
        have hpos := List.length_pos_iff.mpr hne
        have hstay : stay = [] := (List.append_eq_nil_iff.mp hnil).2
        rw [hitems, hstay, List.nil_append, ← hgone] at hlen
        omega
    · obtain ⟨k, hk, hlen⟩ := BoundedRing.size_eq_of_not_canPut (r := s.buffer) (by simp [hfull])
      have htwo := hroom k hk
      omega

end DBusLogSender

end DBusLog
