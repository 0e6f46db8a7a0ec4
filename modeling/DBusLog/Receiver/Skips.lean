import DBusLog.Lib.Gaps
import DBusLog.Receiver.Packets

/-!
# What SKIP signals count

Messages whose indices are numbers modulo 2^32 are announced with a SKIP signal for every gap. The
signal counts the gap correctly unless the last index before the wrap lies in it.
-/

namespace DBusLog.ReceiverEvent

/-- The number of messages that an event reports as lost. -/
def skipCount : ReceiverEvent → Nat
  | .skip count => count.toNat
  | _ => 0

/-- All messages that the events report as lost. -/
def skipTotal (events : List ReceiverEvent) : Nat := (events.map skipCount).sum

/-- The largest index. -/
def maxIndex : UInt32 := 0xffffffff

theorem skipTotal_append (xs ys : List ReceiverEvent) :
    skipTotal (xs ++ ys) = skipTotal xs + skipTotal ys := by
  simp [skipTotal]

/-- The SKIP signals that count `k` messages. -/
def skips (k : Nat) : List ReceiverEvent := if k = 0 then [] else [.skip (UInt32.ofNat k)]

/-- The receiver counts a gap of `k` messages from `expected` on: it does not reach the largest
index, or the difference is the same in both directions. -/
def Countable (expected : UInt32) (k : Nat) : Prop :=
  k = 0 ∨ expected.toNat + k < 2 ^ 32 ∨ k = 2 ^ 31

/-- What the receiver makes of a gap of `k` messages after the number `p`. -/
theorem skip?_iff (p : Nat) {k : Nat} (hk : k < 2 ^ 32) :
    (skip? (some (UInt32.ofNat p)) (UInt32.ofNat (p + k + 1))).toList = skips k ↔
      Countable (UInt32.ofNat p + 1) k := by
  have hexpected : (UInt32.ofNat p + 1).toNat = (p + 1) % 2 ^ 32 := by
    rw [UInt32.toNat_add, UInt32.toNat_ofNat']
    simp
  have hindex : (UInt32.ofNat (p + k + 1)).toNat = (p + k + 1) % 2 ^ 32 := UInt32.toNat_ofNat'
  have hcount : (UInt32.ofNat k).toNat = k := by
    rw [UInt32.toNat_ofNat']
    omega
  unfold skip? skips Countable
  rw [Option.bind_some, hexpected]
  by_cases hzero : k = 0
  · subst hzero
    have hnext : UInt32.ofNat (p + 0 + 1) = UInt32.ofNat p + 1 := UInt32.ofNat_add p 1
    rw [if_neg (not_not.mpr hnext), if_pos rfl]
    exact iff_of_true rfl (.inl rfl)
  · have hne : UInt32.ofNat (p + k + 1) ≠ UInt32.ofNat p + 1 := by
      intro he
      have hnat := congrArg UInt32.toNat he
      rw [hexpected, hindex] at hnat
      omega
    rw [if_pos hne, if_neg hzero]
    simp only [Option.toList_some, List.cons.injEq, and_true, skip.injEq, hzero, false_or]
    rw [← UInt32.toNat_inj, hcount]
    by_cases hgt : UInt32.ofNat (p + k + 1) > UInt32.ofNat p + 1
    · have hlt := UInt32.lt_iff_toNat_lt.mp hgt
      rw [if_pos hgt, UInt32.toNat_sub_of_le _ _ (UInt32.le_of_lt hgt)]
      rw [hexpected, hindex] at hlt ⊢
      omega
    · have hle := UInt32.le_iff_toNat_le.mp (UInt32.not_lt.mp hgt)
      rw [if_neg hgt, UInt32.toNat_sub_of_le _ _ (UInt32.not_lt.mp hgt)]
      rw [hexpected, hindex] at hle ⊢
      omega

theorem skipTotal_skips {k : Nat} (hk : k < 2 ^ 32) : skipTotal (skips k) = k := by
  unfold skips
  by_cases hzero : k = 0
  · rw [if_pos hzero, hzero]
    rfl
  · rw [if_neg hzero]
    change (UInt32.ofNat k).toNat + 0 = k
    rw [UInt32.toNat_ofNat']
    omega

/-- A gap in which the largest index does not lie. -/
theorem skip?_gap (first : Nat) {p q : Nat} (hpq : p < q)
    (hwrap : ∀ r, p < r → r < q → UInt32.ofNat (first + r) ≠ maxIndex) :
    skipTotal (skip? (some (UInt32.ofNat (first + p))) (UInt32.ofNat (first + q))).toList =
      q - p - 1 := by
  -- the whole gap lies below the wrap
  have hbelow : (first + p + 1) % 2 ^ 32 + (q - p - 1) < 2 ^ 32 := by
    by_contra hnot
    have hr : UInt32.ofNat (first + (p + 1 + (2 ^ 32 - 1 - (first + p + 1) % 2 ^ 32))) = maxIndex := by
      apply UInt32.toNat_inj.mp
      rw [UInt32.toNat_ofNat']
      change _ = 2 ^ 32 - 1
      omega
    exact hwrap _ (by omega) (by omega) hr
  have hcountable : Countable (UInt32.ofNat (first + p) + 1) (q - p - 1) := by
    refine .inr (.inl ?_)
    rw [UInt32.toNat_add, UInt32.toNat_ofNat']
    change ((first + p) % 2 ^ 32 + 1) % 2 ^ 32 + _ < _
    omega
  have hskips := (skip?_iff (first + p) (by omega)).mpr hcountable
  rw [show first + p + (q - p - 1) + 1 = first + q by omega] at hskips
  rw [hskips]
  exact skipTotal_skips (by omega)

/-- What is announced after a message depends only on its index. -/
theorem announceAll_append (last : Option UInt32) (before : List DBusLogMessage)
    (m : DBusLogMessage) (ms : List DBusLogMessage) :
    announceAll last (before ++ m :: ms) =
      announceAll last (before ++ [m]) ++ announceAll (some m.index) ms := by
  induction before generalizing last with
  | nil => simp only [List.nil_append, announceAll, List.append_nil]
  | cons b before ih =>
    simp only [List.cons_append, announceAll, ih, List.append_assoc]

/-- The messages left of a numbered sequence, announced after the number `p`. -/
theorem announceAll_skips {first p : Nat} {ps : List Nat} {ms : List DBusLogMessage}
    (hsorted : (p :: ps).Pairwise (· < ·))
    (hindices : ms.map (·.index) = ps.map fun q => UInt32.ofNat (first + q))
    (hwrap : ∀ r, p < r → (∃ q ∈ ps, r < q) → UInt32.ofNat (first + r) = maxIndex → r ∈ ps) :
    skipTotal (announceAll (some (UInt32.ofNat (first + p))) ms) = Gaps.missing (p :: ps) := by
  induction ps generalizing p ms with
  | nil =>
    rw [List.map_nil, List.map_eq_nil_iff] at hindices
    rw [hindices]
    rfl
  | cons q ps ih =>
    obtain ⟨m, ms, rfl⟩ : ∃ m ms', ms = m :: ms' := by
      cases ms with
      | nil => cases hindices
      | cons m ms => exact ⟨m, ms, rfl⟩
    rw [List.map_cons, List.map_cons, List.cons.injEq] at hindices
    obtain ⟨hm, hrest⟩ := hindices
    obtain ⟨hp, hsorted'⟩ := List.pairwise_cons.mp hsorted
    have hpq := hp q List.mem_cons_self
    have hgap := skip?_gap first hpq fun r hpr hrq hr => by
      rcases List.mem_cons.mp (hwrap r hpr ⟨q, List.mem_cons_self, hrq⟩ hr) with rfl | hmem
      · exact lt_irrefl _ hrq
      · exact lt_asymm hrq ((List.pairwise_cons.mp hsorted').1 r hmem)
    have hlater := ih hsorted' hrest fun r hqr ⟨q', hq', hrq'⟩ hr => by
      rcases List.mem_cons.mp (hwrap r (hpq.trans hqr) ⟨q', List.mem_cons_of_mem q hq', hrq'⟩ hr)
        with rfl | hmem
      · exact absurd hqr (lt_irrefl _)
      · exact hmem
    have hmessage : skipTotal [ReceiverEvent.message m.received] = 0 := rfl
    rw [announceAll, announce, skipTotal_append, skipTotal_append, hmessage, hm, hgap, hlater,
      Gaps.missing, Nat.add_zero]

/-- The receiver accounts for all messages of a numbered sequence from which neither the first nor
the last is missing, nor any that has the largest index. -/
theorem announceAll_accounts {first n : Nat} {ps : List Nat} {ms : List DBusLogMessage}
    (hps : Gaps.Positions n ps)
    (hindices : ms.map (·.index) = ps.map fun p => UInt32.ofNat (first + p))
    (hwrap : ∀ r < n, UInt32.ofNat (first + r) = maxIndex → r ∈ ps) :
    ((announceAll none ms).filterMap message?).length + skipTotal (announceAll none ms) = n := by
  have hlength : ms.length = ps.length := by
    have he := congrArg List.length hindices
    rwa [List.length_map, List.length_map] at he
  have htotal := hps.total
  rw [announceAll_messages, List.length_map]
  cases ps with
  | nil =>
    rw [List.map_nil, List.map_eq_nil_iff] at hindices
    rw [hindices]
    exact htotal
  | cons p ps =>
    obtain ⟨m, ms, rfl⟩ : ∃ m ms', ms = m :: ms' := by
      cases ms with
      | nil => cases hindices
      | cons m ms => exact ⟨m, ms, rfl⟩
    rw [List.map_cons, List.map_cons, List.cons.injEq] at hindices
    obtain ⟨hm, hrest⟩ := hindices
    have hlater := announceAll_skips hps.sorted hrest fun r hpr ⟨q, hq, hrq⟩ hr => by
      have hlt := hps.lt (List.mem_cons_of_mem p hq)
      rcases List.mem_cons.mp (hwrap r (hrq.trans hlt) hr) with rfl | hmem
      · exact absurd hpr (lt_irrefl _)
      · exact hmem
    have hfirst : skipTotal (announce none m) = 0 := rfl
    rw [announceAll, skipTotal_append, hfirst, hm, hlater, hlength, Nat.zero_add]
    exact htotal

end DBusLog.ReceiverEvent
