import DBusLog.Lib.Probing
import DBusLog.Server.Dbus
import DBusLog.Server.Sessions

/-!
# The watches for the names of the peers

A libdbus server has one watch for each bus name among its peers, and an id for each peer that
refers to the watch. Removing a peer removes its id, the last id releases the watch, and the watch
takes itself out of the table of names. While an older session is replaced, two ids refer to one
watch.
-/

namespace DBusLog

namespace DBusLogServerDbus

/-! ## Memory -/

variable {b : DBusLogServerDbus}

theorem watchAt_set (b : DBusLogServerDbus) (i j : Nat) (cell : Option DBusLogNameWatch)
    (hi : i < b.memory.length) :
    ({ b with memory := b.memory.set i cell } : DBusLogServerDbus).watchAt j =
      if i = j then cell else b.watchAt j := by
  unfold watchAt
  dsimp only
  rw [List.getElem?_set]
  by_cases hij : i = j
  · subst hij
    rw [if_pos rfl, if_pos rfl, if_pos hi]
    rfl
  · rw [if_neg hij, if_neg hij]

theorem lt_of_watchAt {i : Nat} {w : DBusLogNameWatch} (h : b.watchAt i = some w) :
    i < b.memory.length := by
  by_contra hout
  unfold watchAt at h
  rw [List.getElem?_eq_none (Nat.le_of_not_lt hout)] at h
  cases h

/-- Cells that have been freed are not used again, and none goes away. -/
def FreedStays (b b' : DBusLogServerDbus) : Prop :=
  b.memory.length ≤ b'.memory.length ∧
    ∀ i, i < b.memory.length → b.watchAt i = none → b'.watchAt i = none

theorem FreedStays.refl (b : DBusLogServerDbus) : FreedStays b b := ⟨le_rfl, fun _ _ => id⟩

theorem FreedStays.trans {b' b'' : DBusLogServerDbus} (h : FreedStays b b')
    (h' : FreedStays b' b'') : FreedStays b b'' :=
  ⟨h.1.trans h'.1, fun i hi hfreed => h'.2 i (hi.trans_le h.1) (h.2 i hi hfreed)⟩

/-! ## Ids -/

/-- The id is not one for a new watch: it is 0, or in use. -/
def Busy (b : DBusLogServerDbus) (id : UInt64) : Prop :=
  id = 0 ∨ (b.idWatchTable.lookup id).isSome

instance (b : DBusLogServerDbus) : DecidablePred b.Busy := fun id =>
  inferInstanceAs (Decidable (id = 0 ∨ (b.idWatchTable.lookup id).isSome))

theorem nextWatchId_eq_probe (b : DBusLogServerDbus) (fuel : Nat) (id : UInt64) :
    b.nextWatchId fuel id = Probing.probe b.Busy (· + 1) fuel id := by
  induction fuel generalizing id with
  | zero => rfl
  | succ fuel ih =>
    unfold nextWatchId Probing.probe
    rw [ih]
    rfl

theorem toNat_iterate (id : UInt64) (k : Nat) :
    ((· + 1)^[k] id).toNat = (id.toNat + k) % 2 ^ 64 := by
  induction k generalizing id with
  | zero => exact (Nat.mod_eq_of_lt id.toNat_lt).symm
  | succ k ih =>
    rw [Function.iterate_succ_apply, ih, UInt64.toNat_add]
    change ((id.toNat + 1) % 2 ^ 64 + k) % 2 ^ 64 = _
    omega

/-- The loop comes to an id that is not 0 and not in use, if there is one. It looks at the table of
ids only. -/
theorem nextWatchId_not_busy {b' : DBusLogServerDbus} (htable : b'.idWatchTable = b.idWatchTable)
    (hroom : b.idWatchTable.values.length + 1 < 2 ^ 64) (id : UInt64) :
    ¬b.Busy (b'.nextWatchId (b'.idWatchTable.values.length + 2) id) := by
  have hbusy : b'.Busy = b.Busy := by
    funext key
    unfold Busy
    rw [htable]
  rw [← hbusy, nextWatchId_eq_probe]
  rw [← htable] at hroom
  obtain ⟨k, hk, hfree⟩ := Probing.exists_iterate_not_mem (· + 1) id
    (0 :: b'.idWatchTable.values.map Prod.fst) fun i j hi hj he => by
      rw [List.length_cons, List.length_map] at hi hj
      have hsame := congrArg UInt64.toNat he
      rw [toNat_iterate, toNat_iterate] at hsame
      omega
  rw [List.length_cons, List.length_map] at hk
  refine Probing.not_busy_probe (hk.trans (Nat.le_succ _)) fun hbusy => hfree ?_
  obtain hzero | hused := hbusy
  · exact List.mem_cons.mpr (.inl hzero)
  · obtain ⟨e, he⟩ := Option.isSome_iff_exists.mp hused
    refine List.mem_cons_of_mem _ (List.mem_map.mpr ⟨e, KeyedTable.mem_of_lookup he, ?_⟩)
    exact KeyedTable.key_of_lookup he

/-! ## What `dbus_log_server_dbus_watch_name` does -/

theorem modify_memory {i : Nat} {w : DBusLogNameWatch} (hw : b.watchAt i = some w)
    (f : DBusLogNameWatch → DBusLogNameWatch) :
    b.memory.modify i (Option.map f) = b.memory.set i (some (f w)) := by
  have hcell : b.memory[i]? = some (some w) := Option.join_eq_some_iff.mp hw
  rw [List.modify_eq_set_getElem?, hcell]
  rfl

/-- An id that is not busy is none of those in the table. -/
theorem ne_of_not_busy {id : UInt64} (h : ¬b.Busy id) : ∀ e ∈ b.idWatchTable.values, e.1 ≠ id := by
  intro e hmem hsame
  refine h (.inr ?_)
  rw [← hsame, KeyedTable.lookup_of_mem hmem]
  rfl

/-- There is a new id, for a watch that has been there or for a new one. -/
theorem watchName_cases (hroom : b.idWatchTable.values.length + 1 < 2 ^ 64) (name : String) :
    ∃ id, ¬b.Busy id ∧
      ((∃ i, b.nameWatchTable.lookup name = some (name, i) ∧
        b.watchName name = (id, { b with
          memory := b.memory.modify i (Option.map fun w => { w with refCount := w.refCount + 1 })
          lastWatchId := id
          idWatchTable := b.idWatchTable.insert (id, i) })) ∨
      (b.nameWatchTable.lookup name = none ∧
        b.watchName name = (id, { b with
          memory := b.memory ++ [some { newWatch name with refCount := 1 }]
          nameWatchTable := b.nameWatchTable.insert (name, b.memory.length)
          matchRules := b.matchRules ++ [ruleFor name]
          lastWatchId := id
          idWatchTable := b.idWatchTable.insert (id, b.memory.length) }))) := by
  unfold watchName
  cases hlookup : b.nameWatchTable.lookup name with
  | some e =>
    obtain ⟨key, i⟩ := e
    cases KeyedTable.key_of_lookup hlookup
    refine ⟨_, ?_, .inl ⟨i, rfl, rfl⟩⟩
    apply nextWatchId_not_busy
    · rfl
    · exact hroom
  | none =>
    have hnew : (b.memory ++ [some (newWatch name)]).modify b.memory.length
        (Option.map fun w => { w with refCount := w.refCount + 1 }) =
        b.memory ++ [some { newWatch name with refCount := 1 }] := by
      rw [List.modify_eq_set_getElem?, List.getElem?_append_right le_rfl, Nat.sub_self]
      change (b.memory ++ [some (newWatch name)]).set b.memory.length _ = _
      rw [List.set_append_right _ _ le_rfl, Nat.sub_self]
      rfl
    dsimp only
    rw [hnew]
    refine ⟨_, ?_, .inr ⟨rfl, rfl⟩⟩
    apply nextWatchId_not_busy
    · rfl
    · exact hroom

/-! ## Peers and watches -/

/-- Peers, ids, names and watches belong together. -/
structure Watched (peers : KeyedTable DBusLogServerPeer.name) (b : DBusLogServerDbus) : Prop where
  referred : ∀ peer ∈ peers.values, ∃ i, (peer.watchId, i) ∈ b.idWatchTable.values ∧
    (peer.name, i) ∈ b.nameWatchTable.values
  ids : ∀ e ∈ b.idWatchTable.values, e.1 ≠ 0 ∧ ∃ peer ∈ peers.values, peer.watchId = e.1
  names : ∀ e ∈ b.nameWatchTable.values, (∃ peer ∈ peers.values, peer.name = e.1) ∧
    ∃ w, b.watchAt e.2 = some w ∧ w.name = e.1 ∧ w.refCount = 1
  live : ∀ i w, b.watchAt i = some w → (w.name, i) ∈ b.nameWatchTable.values

variable {peers : KeyedTable DBusLogServerPeer.name}

/-- A key has one watch. -/
theorem watch_eq {κ : Type} {t : KeyedTable (Prod.fst : κ × Nat → κ)} {k k' : κ} {i j : Nat}
    (hi : (k, i) ∈ t.values) (hj : (k', j) ∈ t.values) (h : k = k') : i = j :=
  congrArg Prod.snd (KeyedTable.eq_of_key_eq hi hj h)

/-- Different peers have different ids. -/
theorem Watched.peer_eq (h : Watched peers b) {p q : DBusLogServerPeer} (hp : p ∈ peers.values)
    (hq : q ∈ peers.values) (hid : p.watchId = q.watchId) : p = q := by
  obtain ⟨i, hi, hname⟩ := h.referred p hp
  obtain ⟨j, hj, hname'⟩ := h.referred q hq
  cases watch_eq hi hj hid
  obtain ⟨_, w, hw, hwname, _⟩ := h.names _ hname
  obtain ⟨_, w', hw', hwname', _⟩ := h.names _ hname'
  cases hw.symm.trans hw'
  exact KeyedTable.eq_of_key_eq hp hq (hwname.symm.trans hwname')

/-- A live watch belongs to one peer. -/
theorem Watched.peer_of_watch (h : Watched peers b) {i : Nat} {w : DBusLogNameWatch}
    (hw : b.watchAt i = some w) : ∃ peer ∈ peers.values, peer.name = w.name ∧
      (peer.watchId, i) ∈ b.idWatchTable.values := by
  have hname := h.live i w hw
  obtain ⟨⟨peer, hpeer, hpeername⟩, _⟩ := h.names _ hname
  obtain ⟨j, hj, hname'⟩ := h.referred peer hpeer
  cases watch_eq hname hname' hpeername.symm
  exact ⟨peer, hpeer, hpeername, hj⟩

/-- The flags of a watch do not matter. -/
theorem Watched.set_watch (h : Watched peers b) {i : Nat} {w w' : DBusLogNameWatch}
    (hw : b.watchAt i = some w) (hname : w'.name = w.name) (hcount : w'.refCount = w.refCount) :
    Watched peers { b with memory := b.memory.set i (some w') } where
  referred := h.referred
  ids := h.ids
  names e he := by
    obtain ⟨hpeer, w₀, hw₀, hname₀, hcount₀⟩ := h.names e he
    refine ⟨hpeer, ?_⟩
    rw [watchAt_set b i e.2 _ (lt_of_watchAt hw)]
    by_cases hi : i = e.2
    · rw [if_pos hi]
      subst hi
      cases hw.symm.trans hw₀
      exact ⟨w', rfl, hname.trans hname₀, hcount.trans hcount₀⟩
    · rw [if_neg hi]
      exact ⟨w₀, hw₀, hname₀, hcount₀⟩
  live j w₁ hw₁ := by
    rw [watchAt_set b i j _ (lt_of_watchAt hw)] at hw₁
    by_cases hi : i = j
    · rw [if_pos hi] at hw₁
      cases hw₁
      subst hi
      rw [hname]
      exact h.live i w hw
    · rw [if_neg hi] at hw₁
      exact h.live j w₁ hw₁

/-! ## A peer goes -/

theorem Watched.unwatchName_eq (h : Watched peers b) {peer : DBusLogServerPeer}
    (hpeer : peer ∈ peers.values) : ∃ i w, (peer.watchId, i) ∈ b.idWatchTable.values ∧
      (peer.name, i) ∈ b.nameWatchTable.values ∧ b.watchAt i = some w ∧ w.name = peer.name ∧
      b.unwatchName peer.watchId = { b with
        idWatchTable := b.idWatchTable.erase peer.watchId
        matchRules := b.matchRules.erase w.rule
        nameWatchTable := b.nameWatchTable.erase peer.name
        memory := b.memory.set i none } := by
  obtain ⟨i, hid, hname⟩ := h.referred peer hpeer
  obtain ⟨_, w, hw, hwname, hcount⟩ := h.names _ hname
  refine ⟨i, w, hid, hname, hw, hwname, ?_⟩
  have hlookup : b.idWatchTable.lookup peer.watchId = some (peer.watchId, i) :=
    KeyedTable.lookup_of_mem hid
  have hw' : ({ b with idWatchTable := b.idWatchTable.erase peer.watchId } :
      DBusLogServerDbus).watchAt i = some w := hw
  unfold unwatchName
  rw [hlookup]
  dsimp only
  unfold watchUnref
  rw [hw']
  dsimp only
  rw [if_pos (by omega), show w.name = peer.name from hwname]

/-- With its only peer a watch is freed. -/
theorem Watched.unwatch (h : Watched peers b) {peer : DBusLogServerPeer}
    (hpeer : peer ∈ peers.values) :
    Watched (peers.erase peer.name) (b.unwatchName peer.watchId) ∧
      FreedStays b (b.unwatchName peer.watchId) ∧
      ∀ j w, (b.unwatchName peer.watchId).watchAt j = some w →
        b.watchAt j = some w ∧ w.name ≠ peer.name := by
  obtain ⟨i, w, hid, hname, hw, hwname, he⟩ := h.unwatchName_eq hpeer
  have hat : ∀ j, (b.unwatchName peer.watchId).watchAt j =
      if i = j then none else b.watchAt j := by
    intro j
    rw [he]
    exact watchAt_set b i j none (lt_of_watchAt hw)
  have hleft : ∀ j w', (b.unwatchName peer.watchId).watchAt j = some w' →
      b.watchAt j = some w' ∧ w'.name ≠ peer.name := by
    intro j w' hw'
    rw [hat j] at hw'
    by_cases hij : i = j
    · rw [if_pos hij] at hw'
      cases hw'
    · rw [if_neg hij] at hw'
      refine ⟨hw', fun hsame => hij ?_⟩
      exact watch_eq hname (h.live j w' hw') hsame.symm
  refine ⟨⟨?_, ?_, ?_, ?_⟩, ⟨?_, ?_⟩, hleft⟩
  · -- another peer has an id and a name of its own
    intro q hq
    obtain ⟨hqold, hne⟩ := (KeyedTable.mem_erase_iff _).mp hq
    obtain ⟨j, hj, hjname⟩ := h.referred q hqold
    rw [he]
    refine ⟨j, (KeyedTable.mem_erase_iff _).mpr ⟨hj, fun hsame => hne ?_⟩,
      (KeyedTable.mem_erase_iff _).mpr ⟨hjname, hne⟩⟩
    rw [h.peer_eq hqold hpeer hsame]
  · intro e hmem
    rw [he] at hmem
    obtain ⟨hold, hne⟩ := (KeyedTable.mem_erase_iff _).mp hmem
    obtain ⟨hzero, q, hq, hqid⟩ := h.ids e hold
    refine ⟨hzero, q, (KeyedTable.mem_erase_iff _).mpr ⟨hq, fun hsame => hne ?_⟩, hqid⟩
    rw [← hqid, KeyedTable.eq_of_key_eq hq hpeer hsame]
  · -- the watch of another name has not been freed
    intro e hmem
    rw [he] at hmem
    obtain ⟨hold, hne⟩ := (KeyedTable.mem_erase_iff _).mp hmem
    obtain ⟨⟨q, hq, hqname⟩, w', hw', hwname', hcount'⟩ := h.names e hold
    refine ⟨⟨q, (KeyedTable.mem_erase_iff _).mpr ⟨hq, hqname.symm ▸ hne⟩, hqname⟩, w', ?_,
      hwname', hcount'⟩
    rw [hat, if_neg]
    · exact hw'
    · rintro rfl
      cases hw.symm.trans hw'
      exact hne (hwname'.symm.trans hwname)
  · intro j w' hw'
    obtain ⟨hold, hne⟩ := hleft j w' hw'
    rw [he]
    exact (KeyedTable.mem_erase_iff _).mpr ⟨h.live j w' hold, hne⟩
  · rw [he]
    exact (List.length_set ..).ge
  · intro j _ hfreed
    rw [hat j]
    split
    · rfl
    · exact hfreed

/-! ## A peer comes -/

theorem watchAt_append (b : DBusLogServerDbus) (w : DBusLogNameWatch) (j : Nat) :
    ({ b with memory := b.memory ++ [some w] } : DBusLogServerDbus).watchAt j =
      if j = b.memory.length then some w else b.watchAt j := by
  unfold watchAt
  dsimp only
  by_cases hlt : j < b.memory.length
  · rw [List.getElem?_append_left hlt, if_neg (Nat.ne_of_lt hlt)]
  · rw [List.getElem?_append_right (Nat.le_of_not_lt hlt)]
    by_cases hj : j = b.memory.length
    · rw [if_pos hj, hj, Nat.sub_self]
      rfl
    · rw [if_neg hj, List.getElem?_eq_none (by simp only [List.length_singleton]; omega),
        List.getElem?_eq_none (Nat.le_of_not_lt hlt)]

/-- What `LogOpen` of a peer leaves. -/
structure Rewatched (peers : KeyedTable DBusLogServerPeer.name) (b b' : DBusLogServerDbus) :
    Prop where
  watched : Watched peers b'
  stays : FreedStays b b'
  new : ∀ j w, b'.watchAt j = some w → b.watchAt j = some w ∨ w.vanished = false

/-- A peer that is new. -/
theorem Watched.watch_new (h : Watched peers b) {name : String}
    (hnone : peers.lookup name = none) (hroom : b.idWatchTable.values.length + 1 < 2 ^ 64)
    (sender : Nat) :
    Rewatched (peers.insert ⟨name, (b.watchName name).1, sender⟩) b (b.watchName name).2 := by
  have hnopeer : ∀ q ∈ peers.values, q.name ≠ name :=
    (KeyedTable.lookup_eq_none_iff _).mp hnone
  have hnoname : ∀ e ∈ b.nameWatchTable.values, e.1 ≠ name := by
    intro e he hsame
    obtain ⟨⟨q, hq, hqname⟩, _⟩ := h.names e he
    exact hnopeer q hq (hqname.trans hsame)
  obtain ⟨id, hfree, ⟨i, hlookup, _⟩ | ⟨_, he⟩⟩ := watchName_cases hroom name
  · -- a name that is watched has a peer
    exact absurd rfl (hnoname _ (KeyedTable.mem_of_lookup hlookup))
  have hat : ∀ j, (b.watchName name).2.watchAt j =
      if j = b.memory.length then some { newWatch name with refCount := 1 } else b.watchAt j := by
    intro j
    rw [he]
    exact watchAt_append b _ j
  have hkept : ∀ j w, b.watchAt j = some w → (b.watchName name).2.watchAt j = some w := by
    intro j w hw
    rw [hat, if_neg (Nat.ne_of_lt (lt_of_watchAt hw))]
    exact hw
  have hnoid := ne_of_not_busy hfree
  refine ⟨⟨?_, ?_, ?_, ?_⟩, ⟨?_, ?_⟩, ?_⟩
  · intro q hq
    rw [he] at hq ⊢
    obtain rfl | ⟨hold, hne⟩ := (KeyedTable.mem_insert_iff _).mp hq
    · exact ⟨_, (KeyedTable.mem_insert_iff _).mpr (.inl rfl),
        (KeyedTable.mem_insert_iff _).mpr (.inl rfl)⟩
    · obtain ⟨j, hj, hjname⟩ := h.referred q hold
      exact ⟨j, (KeyedTable.mem_insert_iff _).mpr (.inr ⟨hj, hnoid _ hj⟩),
        (KeyedTable.mem_insert_iff _).mpr (.inr ⟨hjname, hne⟩)⟩
  · intro e hmem
    rw [he] at hmem ⊢
    obtain rfl | ⟨hold, _⟩ := (KeyedTable.mem_insert_iff _).mp hmem
    · exact ⟨fun hzero => hfree (.inl hzero), _, (KeyedTable.mem_insert_iff _).mpr (.inl rfl), rfl⟩
    · obtain ⟨hzero, q, hq, hqid⟩ := h.ids e hold
      exact ⟨hzero, q, (KeyedTable.mem_insert_iff _).mpr (.inr ⟨hq, hnopeer q hq⟩), hqid⟩
  · intro e hmem
    rw [hat]
    rw [he] at hmem
    obtain rfl | ⟨hold, _⟩ := (KeyedTable.mem_insert_iff _).mp hmem
    · rw [if_pos rfl]
      exact ⟨⟨_, (KeyedTable.mem_insert_iff _).mpr (.inl rfl), rfl⟩, _, rfl, rfl, rfl⟩
    · obtain ⟨⟨q, hq, hqname⟩, w, hw, hwname⟩ := h.names e hold
      rw [if_neg (Nat.ne_of_lt (lt_of_watchAt hw))]
      exact ⟨⟨q, (KeyedTable.mem_insert_iff _).mpr (.inr ⟨hq, hnopeer q hq⟩), hqname⟩, w, hw,
        hwname⟩
  · intro j w hw
    rw [hat] at hw
    rw [he]
    by_cases hj : j = b.memory.length
    · rw [if_pos hj] at hw
      cases hw
      rw [hj]
      exact (KeyedTable.mem_insert_iff _).mpr (.inl rfl)
    · rw [if_neg hj] at hw
      have hold := h.live j w hw
      exact (KeyedTable.mem_insert_iff _).mpr (.inr ⟨hold, hnoname _ hold⟩)
  · rw [he]
    exact (List.length_append ..).symm ▸ Nat.le_add_right _ _
  · intro j hj hfreed
    rw [hat, if_neg (Nat.ne_of_lt hj)]
    exact hfreed
  · intro j w hw
    rw [hat] at hw
    by_cases hj : j = b.memory.length
    · rw [if_pos hj] at hw
      cases hw
      exact .inr rfl
    · rw [if_neg hj] at hw
      exact .inl hw

/-- The watch has two references for a moment, and then one again. -/
theorem unwatchName_again {oldId id : UInt64} {i : Nat} {w : DBusLogNameWatch}
    (hid : (oldId, i) ∈ b.idWatchTable.values) (hne : oldId ≠ id) (hw : b.watchAt i = some w)
    (hcount : w.refCount = 1) :
    unwatchName { b with
      memory := b.memory.modify i (Option.map fun w => { w with refCount := w.refCount + 1 })
      lastWatchId := id
      idWatchTable := b.idWatchTable.insert (id, i) } oldId = { b with
        lastWatchId := id
        idWatchTable := (b.idWatchTable.insert (id, i)).erase oldId } := by
  have hlt := lt_of_watchAt hw
  have hsame : b.memory.set i (some w) = b.memory := by
    obtain ⟨_, hcell⟩ := List.getElem?_eq_some_iff.mp (Option.join_eq_some_iff.mp hw)
    rw [← hcell]
    exact List.set_getElem_self hlt
  have hboth : (b.idWatchTable.insert (id, i)).lookup oldId = some (oldId, i) :=
    KeyedTable.lookup_of_mem (a := (oldId, i))
      ((KeyedTable.mem_insert_iff _).mpr (.inr ⟨hid, hne⟩))
  have hat := watchAt_set b i i (some { w with refCount := w.refCount + 1 }) hlt
  rw [if_pos rfl] at hat
  rw [modify_memory hw]
  unfold unwatchName
  dsimp only
  rw [hboth]
  dsimp only
  unfold watchUnref
  rw [show ({ b with
      memory := b.memory.set i (some { w with refCount := w.refCount + 1 })
      lastWatchId := id
      idWatchTable := (b.idWatchTable.insert (id, i)).erase oldId } :
        DBusLogServerDbus).watchAt i = some { w with refCount := w.refCount + 1 } from hat]
  dsimp only
  rw [if_neg (by omega), Int.add_sub_cancel, List.set_set, hsame]

/-- A peer that opens the log again. Its older id goes as soon as there is the new one. -/
theorem Watched.watch_again (h : Watched peers b) {name : String} {old : DBusLogServerPeer}
    (hold : peers.lookup name = some old) (hroom : b.idWatchTable.values.length + 1 < 2 ^ 64)
    (sender : Nat) :
    Rewatched (peers.insert ⟨name, (b.watchName name).1, sender⟩) b
      ((b.watchName name).2.unwatchName old.watchId) := by
  have hpeer := KeyedTable.mem_of_lookup hold
  have hname := KeyedTable.key_of_lookup hold
  obtain ⟨i, hid, hiname⟩ := h.referred old hpeer
  obtain ⟨_, w, hw, hwname, hcount⟩ := h.names _ hiname
  obtain ⟨id, hfree, ⟨j, hlookup, he⟩ | ⟨hnone, _⟩⟩ := watchName_cases hroom name
  swap
  · -- the name is watched already
    exact absurd hname ((KeyedTable.lookup_eq_none_iff _).mp hnone _ hiname)
  cases watch_eq hiname (KeyedTable.mem_of_lookup hlookup) hname
  have hnoid := ne_of_not_busy hfree
  have hunwatch : (b.watchName name).2.unwatchName old.watchId = { b with
      lastWatchId := id
      idWatchTable := (b.idWatchTable.insert (id, i)).erase old.watchId } := by
    rw [he]
    exact unwatchName_again hid (hnoid _ hid) hw hcount
  have hat : ∀ j, ((b.watchName name).2.unwatchName old.watchId).watchAt j = b.watchAt j := by
    intro j
    rw [hunwatch]
    rfl
  refine ⟨⟨?_, ?_, ?_, ?_⟩, ⟨?_, ?_⟩, ?_⟩
  · intro q hq
    rw [hunwatch]
    rw [he] at hq
    obtain rfl | ⟨hqold, hne⟩ := (KeyedTable.mem_insert_iff _).mp hq
    · refine ⟨i, (KeyedTable.mem_erase_iff _).mpr ⟨(KeyedTable.mem_insert_iff _).mpr (.inl rfl), ?_⟩,
        hname ▸ hiname⟩
      exact (hnoid _ hid).symm
    · obtain ⟨j, hj, hjname⟩ := h.referred q hqold
      refine ⟨j, (KeyedTable.mem_erase_iff _).mpr
        ⟨(KeyedTable.mem_insert_iff _).mpr (.inr ⟨hj, hnoid _ hj⟩), fun hsame => hne ?_⟩, hjname⟩
      rw [h.peer_eq hqold hpeer hsame]
      exact hname
  · intro e hmem
    rw [hunwatch] at hmem
    rw [he]
    obtain ⟨hin, hne⟩ := (KeyedTable.mem_erase_iff _).mp hmem
    obtain rfl | ⟨hin, _⟩ := (KeyedTable.mem_insert_iff _).mp hin
    · exact ⟨fun hzero => hfree (.inl hzero), _, (KeyedTable.mem_insert_iff _).mpr (.inl rfl), rfl⟩
    · obtain ⟨hzero, q, hq, hqid⟩ := h.ids e hin
      refine ⟨hzero, q, (KeyedTable.mem_insert_iff _).mpr (.inr ⟨hq, fun hsame => hne ?_⟩), hqid⟩
      rw [← hqid, KeyedTable.eq_of_key_eq hq hpeer (hsame.trans hname.symm)]
  · intro e hmem
    rw [hat]
    rw [hunwatch] at hmem
    rw [he]
    obtain ⟨⟨q, hq, hqname⟩, hwatch⟩ := h.names e hmem
    refine ⟨?_, hwatch⟩
    by_cases hsame : q.name = name
    · exact ⟨_, (KeyedTable.mem_insert_iff _).mpr (.inl rfl), hsame.symm.trans hqname⟩
    · exact ⟨q, (KeyedTable.mem_insert_iff _).mpr (.inr ⟨hq, hsame⟩), hqname⟩
  · intro j w' hw'
    rw [hat] at hw'
    rw [hunwatch]
    exact h.live j w' hw'
  · rw [hunwatch]
  · intro j _ hfreed
    rw [hat]
    exact hfreed
  · intro j w' hw'
    rw [hat] at hw'
    exact .inl hw'

/-! ## Steps of a server -/

/-- What happens to the watches of a server. -/
inductive WatchOp
  | logOpen (ctx : ServerContext) (name : String)
  | logClose (ctx : ServerContext) (name : String) (cookie : UInt32)
  | nameOwnerChanged (ctx : ServerContext) (msg : DBusMessage)
  | getNameOwnerReply (ctx : ServerContext) (watch : Nat) (owner : Option String)

section Server

variable {Cred Policy : Type} (lib : Libraries Cred Policy)

/-- The call gets to `dbus_log_server_dbus_watch_name` when all ids are in use. The loop there does
not end. -/
def Hangs (s : DBusLogServer Policy DBusLogServerDbus) (ctx : ServerContext) (name : String) :
    Prop :=
  (s.accessAllowed lib name .logOpen = true ∧ ctx.pipe.isSome = true) ∧
    2 ^ 64 ≤ s.backend.idWatchTable.values.length + 1

instance (s : DBusLogServer Policy DBusLogServerDbus) (ctx : ServerContext) (name : String) :
    Decidable (Hangs lib s ctx name) :=
  inferInstanceAs (Decidable ((_ ∧ _) ∧ _))

/-- A step; `none` when it is not enabled. A reply comes once, and not after it is cancelled. -/
def watchStep (s : DBusLogServer Policy DBusLogServerDbus) :
    WatchOp → Option (DBusLogServer Policy DBusLogServerDbus)
  | .logOpen ctx name =>
    if Hangs lib s ctx name then none
    else some (handleLogOpen lib ctx s (message s.path name .logOpen)).2
  | .logClose ctx name cookie =>
    some (handleLogClose ctx s (message s.path name (.logClose cookie))).2
  | .nameOwnerChanged ctx msg => some (handleNameOwnerChanged ctx s msg).2
  | .getNameOwnerReply ctx watch owner =>
    if (s.backend.watchAt watch).any (·.getNameOwnerPending) then
      some (getNameOwnerReply ctx s watch owner)
    else none

/-- `dbus_log_server_dispose`. The table of peers is empty when its values are destroyed, in the
given order. -/
def dispose (ctx : ServerContext) (s : DBusLogServer Policy DBusLogServerDbus)
    (order : List DBusLogServerPeer) : DBusLogServer Policy DBusLogServerDbus :=
  order.foldl (DBusLogServer.peerDestroy klass ctx) { s.stop klass with peers := .empty }

/-- Between two steps no watch has vanished. -/
structure Settled (s : DBusLogServer Policy DBusLogServerDbus) : Prop where
  watched : Watched s.peers s.backend
  present : ∀ i w, s.backend.watchAt i = some w → w.vanished = false

variable {lib} {s s' : DBusLogServer Policy DBusLogServerDbus}

theorem settled_removePeer (h : Watched s.peers s.backend) (ctx : ServerContext) (name : String)
    (hpresent : ∀ i w, s.backend.watchAt i = some w → w.vanished = true → w.name = name) :
    Settled (s.removePeer klass ctx name) ∧
      FreedStays s.backend (s.removePeer klass ctx name).backend := by
  unfold DBusLogServer.removePeer
  cases hlookup : s.peers.lookup name with
  | none =>
    refine ⟨⟨h, fun i w hw => ?_⟩, .refl _⟩
    by_contra hvanished
    have hsame := hpresent i w hw (Bool.not_eq_false _ ▸ hvanished)
    obtain ⟨⟨peer, hpeer, hname⟩, _⟩ := h.names _ (h.live i w hw)
    exact (KeyedTable.lookup_eq_none_iff _).mp hlookup peer hpeer (hname.trans hsame)
  | some peer =>
    have hname := KeyedTable.key_of_lookup hlookup
    obtain ⟨hwatched, hstays, hleft⟩ := h.unwatch (KeyedTable.mem_of_lookup hlookup)
    rw [hname] at hwatched hleft
    refine ⟨⟨hwatched, fun i w hw => ?_⟩, hstays⟩
    obtain ⟨hold, hne⟩ := hleft i w hw
    by_contra hvanished
    exact hne (hpresent i w hold (Bool.not_eq_false _ ▸ hvanished))

theorem Settled.removePeer (h : Settled s) (ctx : ServerContext) (name : String) :
    Settled (s.removePeer klass ctx name) ∧
      FreedStays s.backend (s.removePeer klass ctx name).backend := by
  refine settled_removePeer h.watched ctx name fun i w hw hvanished => ?_
  rw [h.present i w hw] at hvanished
  cases hvanished

theorem Settled.logOpen (h : Settled s) (ctx : ServerContext) (name : String)
    (hends : ¬Hangs lib s ctx name) :
    Settled (s.callLogOpen lib klass ctx name).2 ∧
      FreedStays s.backend (s.callLogOpen lib klass ctx name).2.backend := by
  obtain ⟨hpeers, hbackend⟩ | ⟨sender, hopens, hpeers, hbackend⟩ :=
    DBusLogServer.callLogOpen_watches s lib klass ctx name
  · refine ⟨⟨?_, ?_⟩, ?_⟩
    · rw [hpeers, hbackend]
      exact h.watched
    · rw [hbackend]
      exact h.present
    · rw [hbackend]
      exact .refl _
  · have hroom : s.backend.idWatchTable.values.length + 1 < 2 ^ 64 := by
      by_contra hfull
      exact hends ⟨hopens, Nat.le_of_not_lt hfull⟩
    have hnew : Rewatched (s.peers.insert ⟨name, (s.backend.watchName name).1, sender⟩) s.backend
        (DBusLogServer.unwatchOld klass (s.backend.watchName name).2 (s.peers.lookup name)) := by
      cases hlookup : s.peers.lookup name with
      | none => exact h.watched.watch_new hlookup hroom sender
      | some old => exact h.watched.watch_again hlookup hroom sender
    refine ⟨⟨?_, ?_⟩, ?_⟩
    · rw [hpeers, hbackend]
      exact hnew.watched
    · rw [hbackend]
      intro i w hw
      obtain hold | hfresh := hnew.new i w hw
      · exact h.present i w hold
      · exact hfresh
    · rw [hbackend]
      exact hnew.stays

theorem freedStays_set {b : DBusLogServerDbus} {i : Nat} {w w' : DBusLogNameWatch}
    (hw : b.watchAt i = some w) :
    FreedStays b { b with memory := b.memory.set i (some w') } := by
  refine ⟨(List.length_set ..).ge, fun j _ hfreed => ?_⟩
  rw [watchAt_set b i j _ (lt_of_watchAt hw), if_neg]
  · exact hfreed
  · rintro rfl
    cases hw.symm.trans hfreed

/-- The watch is released by its own notification. -/
theorem Settled.watchVanished (h : Settled s) (ctx : ServerContext) (watch : Nat) :
    Settled (watchVanished ctx s watch) ∧
      FreedStays s.backend (watchVanished ctx s watch).backend := by
  unfold DBusLogServerDbus.watchVanished
  cases hw : s.backend.watchAt watch with
  | none => exact ⟨h, .refl _⟩
  | some w =>
    dsimp only
    rw [if_neg (by rw [h.present watch w hw]; exact Bool.false_ne_true)]
    obtain ⟨hsettled, hstays⟩ := settled_removePeer
      (s := { s with backend := { s.backend with
        memory := s.backend.memory.set watch (some { w with vanished := true }) } })
      (h.watched.set_watch hw rfl rfl) ctx w.name fun i w' hw' hvanished => by
        rw [watchAt_set s.backend watch i _ (lt_of_watchAt hw)] at hw'
        by_cases hi : watch = i
        · rw [if_pos hi] at hw'
          cases hw'
          rfl
        · rw [if_neg hi] at hw'
          rw [h.present i w' hw'] at hvanished
          cases hvanished
    exact ⟨hsettled, (freedStays_set hw).trans hstays⟩

theorem Settled.getNameOwnerReply (h : Settled s) (ctx : ServerContext) {watch : Nat}
    {w : DBusLogNameWatch} (hw : s.backend.watchAt watch = some w) (owner : Option String) :
    Settled (getNameOwnerReply ctx s watch owner) ∧
      FreedStays s.backend (getNameOwnerReply ctx s watch owner).backend := by
  unfold DBusLogServerDbus.getNameOwnerReply
  dsimp only
  rw [modify_memory hw]
  have hreplied : Settled { s with backend := { s.backend with
      memory := s.backend.memory.set watch (some { w with getNameOwnerPending := false }) } } := by
    refine ⟨h.watched.set_watch hw rfl rfl, fun i w' hw' => ?_⟩
    rw [watchAt_set s.backend watch i _ (lt_of_watchAt hw)] at hw'
    by_cases hi : watch = i
    · rw [if_pos hi] at hw'
      cases hw'
      exact h.present watch w hw
    · rw [if_neg hi] at hw'
      exact h.present i w' hw'
  split
  · obtain ⟨hsettled, hstays⟩ := hreplied.watchVanished ctx watch
    exact ⟨hsettled, (freedStays_set hw).trans hstays⟩
  · exact ⟨hreplied, freedStays_set hw⟩

theorem Settled.nameOwnerChanged (h : Settled s) (ctx : ServerContext) (msg : DBusMessage) :
    Settled (handleNameOwnerChanged ctx s msg).2 ∧
      FreedStays s.backend (handleNameOwnerChanged ctx s msg).2.backend := by
  unfold handleNameOwnerChanged
  split
  · split
    · dsimp only
      split
      · exact h.watchVanished ctx _
      · exact ⟨h, .refl _⟩
    · exact ⟨h, .refl _⟩
  · exact ⟨h, .refl _⟩

/-- Step lemma. -/
theorem Settled.step (h : Settled s) {op : WatchOp} (hs : watchStep lib s op = some s') :
    Settled s' ∧ FreedStays s.backend s'.backend := by
  cases op with
  | logOpen ctx name =>
    obtain ⟨hends, he⟩ := Option.ite_none_left_eq_some.mp hs
    cases he
    rw [handleLogOpen_snd]
    exact h.logOpen ctx name hends
  | logClose ctx name cookie =>
    cases hs
    exact h.removePeer ctx name
  | nameOwnerChanged ctx msg =>
    cases hs
    exact h.nameOwnerChanged ctx msg
  | getNameOwnerReply ctx watch owner =>
    obtain ⟨hpending, he⟩ := Option.ite_none_right_eq_some.mp hs
    cases he
    obtain ⟨w, hw, _⟩ := (Option.any_eq_true _ _).mp hpending
    exact h.getNameOwnerReply ctx hw owner

theorem settled_start (bus : DABus) (path : String) (policy : Policy) (lastWatchId : UInt64) :
    Settled ((DBusLogServer.new bus path policy { new with lastWatchId := lastWatchId }).start
      klass) where
  watched := by
    refine ⟨fun peer hpeer => ?_, fun e he => ?_, fun e he => ?_, fun i w hw => ?_⟩
    · cases hpeer
    · cases he
    · cases he
    · cases hw
  present i w hw := by cases hw

/-- Run lemma. -/
theorem Settled.run (h : Settled s) {ops : List WatchOp}
    (hrun : Runs.run (watchStep lib) s ops = some s') : Settled s' :=
  Runs.invariant_of_forall (C := fun _ => True) (fun _ _ _ hs _ hstep => (hs.step hstep).1)
    (fun _ _ => trivial) hrun h

/-- The peers are destroyed one after another. -/
theorem Watched.destroy_all {order : List DBusLogServerPeer} (h : Watched peers s.backend)
    (hnodup : order.Nodup) (horder : ∀ peer, peer ∈ order ↔ peer ∈ peers.values)
    (ctx : ServerContext) :
    Watched .empty (order.foldl (DBusLogServer.peerDestroy klass ctx) s).backend ∧
      FreedStays s.backend (order.foldl (DBusLogServer.peerDestroy klass ctx) s).backend := by
  induction order generalizing s peers with
  | nil =>
    have hnone : peers.values = [] := List.eq_nil_iff_forall_not_mem.mpr fun peer hpeer => by
      cases (horder peer).mpr hpeer
    have hempty : peers = .empty := by
      obtain ⟨values, _⟩ := peers
      cases hnone
      rfl
    rw [← hempty]
    exact ⟨h, .refl _⟩
  | cons peer rest ih =>
    obtain ⟨hout, hrest⟩ := List.nodup_cons.mp hnodup
    have hpeer := (horder peer).mp List.mem_cons_self
    obtain ⟨hwatched, hstays, _⟩ := h.unwatch hpeer
    have hwatched' : Watched (peers.erase peer.name)
        (DBusLogServer.peerDestroy klass ctx s peer).backend := hwatched
    obtain ⟨hempty, hstays'⟩ := ih hwatched' hrest fun other => by
        rw [KeyedTable.mem_erase_iff, ← horder other, List.mem_cons]
        constructor
        · intro hin
          refine ⟨.inr hin, fun hsame => hout ?_⟩
          have hother := (horder other).mp (List.mem_cons_of_mem _ hin)
          rw [← KeyedTable.eq_of_key_eq hother hpeer hsame]
          exact hin
        · rintro ⟨rfl | hin, hne⟩
          · exact absurd rfl hne
          · exact hin
    exact ⟨hempty, hstays.trans hstays'⟩

/-! ## The whole -/

/-- The counts of the watches, and what the peers refer to. -/
structure Balanced (s : DBusLogServer Policy DBusLogServerDbus) : Prop where
  /-- The table has an entry for a name if and only if there is a peer of that name. -/
  names : ∀ name, (s.backend.nameWatchTable.lookup name).isSome ↔ (s.peers.lookup name).isSome
  /-- The entry for a name is a live watch for it. -/
  watches : ∀ name e, s.backend.nameWatchTable.lookup name = some e →
    ∃ w, s.backend.watchAt e.2 = some w ∧ w.name = name
  /-- The count of a watch is the number of ids that refer to it. -/
  counts : ∀ i w, s.backend.watchAt i = some w → 0 < w.refCount ∧
    w.refCount = (s.backend.idWatchTable.values.filter fun e => e.2 = i).length
  /-- A watch has not been freed if and only if an id refers to it. -/
  alive : ∀ i, (s.backend.watchAt i).isSome ↔ ∃ e ∈ s.backend.idWatchTable.values, e.2 = i
  ids : ∀ peer ∈ s.peers.values, peer.watchId ≠ 0 ∧ ∃ i w,
    s.backend.idWatchTable.lookup peer.watchId = some (peer.watchId, i) ∧
    s.backend.nameWatchTable.lookup peer.name = some (peer.name, i) ∧
    s.backend.watchAt i = some w ∧ w.name = peer.name
  distinct : ∀ p ∈ s.peers.values, ∀ q ∈ s.peers.values, p.watchId = q.watchId → p = q

/-- One id refers to a live watch. -/
theorem Watched.filter_ids (h : Watched peers b) {i : Nat} {w : DBusLogNameWatch}
    (hw : b.watchAt i = some w) :
    ∃ id, b.idWatchTable.values.filter (fun e => e.2 = i) = [(id, i)] := by
  obtain ⟨peer, hpeer, hname, hid⟩ := h.peer_of_watch hw
  refine ⟨peer.watchId, List.perm_singleton.mp ?_⟩
  have hnodup : b.idWatchTable.values.Nodup := List.Nodup.of_map _ b.idWatchTable.nodup
  refine (List.perm_ext_iff_of_nodup (hnodup.filter _) (List.nodup_singleton _)).mpr fun e => ?_
  rw [List.mem_filter, List.mem_singleton, decide_eq_true_eq]
  constructor
  · rintro ⟨hmem, rfl⟩
    obtain ⟨_, q, hq, hqid⟩ := h.ids e hmem
    obtain ⟨j, hj, hjname⟩ := h.referred q hq
    cases watch_eq hj hmem hqid
    obtain ⟨_, w', hw', hwname, _⟩ := h.names _ hjname
    cases hw.symm.trans hw'
    cases KeyedTable.eq_of_key_eq hq hpeer (hwname.symm.trans hname.symm)
    exact Prod.ext hqid.symm rfl
  · rintro rfl
    exact ⟨hid, rfl⟩

theorem Settled.balanced (h : Settled s) : Balanced s where
  names name := by
    constructor
    · intro hsome
      obtain ⟨e, hlookup⟩ := Option.isSome_iff_exists.mp hsome
      obtain ⟨⟨peer, hpeer, hkey⟩, _⟩ := h.watched.names _ (KeyedTable.mem_of_lookup hlookup)
      cases hkey.trans (KeyedTable.key_of_lookup hlookup)
      rw [KeyedTable.lookup_of_mem hpeer]
      rfl
    · intro hsome
      obtain ⟨peer, hlookup⟩ := Option.isSome_iff_exists.mp hsome
      cases KeyedTable.key_of_lookup hlookup
      obtain ⟨i, _, hname⟩ := h.watched.referred peer (KeyedTable.mem_of_lookup hlookup)
      rw [KeyedTable.lookup_of_mem hname]
      rfl
  watches name e hlookup := by
    obtain ⟨_, w, hw, hwname, _⟩ := h.watched.names e (KeyedTable.mem_of_lookup hlookup)
    exact ⟨w, hw, hwname.trans (KeyedTable.key_of_lookup hlookup)⟩
  counts i w hw := by
    obtain ⟨id, hids⟩ := h.watched.filter_ids hw
    obtain ⟨_, w', hw', _, hcount⟩ := h.watched.names _ (h.watched.live i w hw)
    cases hw.symm.trans hw'
    rw [hids, hcount]
    exact ⟨Int.one_pos, rfl⟩
  alive i := by
    constructor
    · intro hsome
      obtain ⟨w, hw⟩ := Option.isSome_iff_exists.mp hsome
      obtain ⟨peer, _, _, hid⟩ := h.watched.peer_of_watch hw
      exact ⟨_, hid, rfl⟩
    · rintro ⟨e, he, rfl⟩
      obtain ⟨_, peer, hpeer, hid⟩ := h.watched.ids e he
      obtain ⟨j, hj, hname⟩ := h.watched.referred peer hpeer
      cases watch_eq hj he hid
      obtain ⟨_, w, hw, _⟩ := h.watched.names _ hname
      rw [hw]
      rfl
  ids peer hpeer := by
    obtain ⟨i, hid, hname⟩ := h.watched.referred peer hpeer
    obtain ⟨_, w, hw, hwname, _⟩ := h.watched.names _ hname
    exact ⟨(h.watched.ids _ hid).1, i, w, KeyedTable.lookup_of_mem hid,
      KeyedTable.lookup_of_mem hname, hw, hwname⟩
  distinct _ hp _ hq hid := h.watched.peer_eq hp hq hid

theorem Settled.stop (h : Settled s) : Watched s.peers (s.stop klass).backend ∧
    FreedStays s.backend (s.stop klass).backend := by
  unfold DBusLogServer.stop
  split
  · split
    · exact ⟨⟨h.watched.referred, h.watched.ids, h.watched.names, h.watched.live⟩,
        le_rfl, fun _ _ => id⟩
    · exact ⟨h.watched, .refl _⟩
  · exact ⟨h.watched, .refl _⟩

theorem Settled.dispose (h : Settled s) (ctx : ServerContext) {order : List DBusLogServerPeer}
    (horder : order.Perm s.peers.values) :
    Watched .empty (dispose ctx s order).backend ∧
      FreedStays s.backend (dispose ctx s order).backend := by
  obtain ⟨hstopped, hstays⟩ := h.stop
  have hnodup : order.Nodup := horder.nodup_iff.mpr (List.Nodup.of_map _ s.peers.nodup)
  obtain ⟨hempty, hstays'⟩ := Watched.destroy_all
    (s := { s.stop klass with peers := .empty }) hstopped hnodup (fun _ => horder.mem_iff) ctx
  exact ⟨hempty, hstays.trans hstays'⟩

/-- Reference counts of the name watches. After any run of a fresh server, wherever the counter of
ids starts, peers, names, watches and ids are in balance, and a freed watch is not used again; and
the server leaves empty tables when it is disposed, in whatever order the peers go. -/
theorem watchesBalanced (lib : Libraries Cred Policy) (bus : DABus) (path : String)
    (policy : Policy) (lastWatchId : UInt64) (ops : List WatchOp)
    (s : DBusLogServer Policy DBusLogServerDbus)
    (hrun : Runs.run (watchStep lib)
      ((DBusLogServer.new bus path policy { new with lastWatchId := lastWatchId }).start klass)
      ops = some s) :
    Balanced s ∧
    (∀ op s', watchStep lib s op = some s' → FreedStays s.backend s'.backend) ∧
    ∀ ctx order, order.Perm s.peers.values →
      (dispose ctx s order).backend.nameWatchTable.values = [] ∧
      (dispose ctx s order).backend.idWatchTable.values = [] ∧
      (∀ i, (dispose ctx s order).backend.watchAt i = none) ∧
      FreedStays s.backend (dispose ctx s order).backend := by
  have h := (settled_start bus path policy lastWatchId).run hrun
  refine ⟨h.balanced, fun op s' hs => (h.step hs).2, fun ctx order horder => ?_⟩
  obtain ⟨hempty, hstays⟩ := h.dispose ctx horder
  have hnames : (dispose ctx s order).backend.nameWatchTable.values = [] := by
    refine List.eq_nil_iff_forall_not_mem.mpr fun e he => ?_
    obtain ⟨⟨_, hpeer, _⟩, _⟩ := hempty.names e he
    cases hpeer
  refine ⟨hnames, List.eq_nil_iff_forall_not_mem.mpr fun e he => ?_, fun i => ?_, hstays⟩
  · obtain ⟨_, _, hpeer, _⟩ := hempty.ids e he
    cases hpeer
  · by_contra hsome
    obtain ⟨w, hw⟩ := Option.ne_none_iff_exists'.mp hsome
    have hname := hempty.live i w hw
    rw [hnames] at hname
    cases hname

end Server

/-- Two peers, of which one opens the log twice while the counter of ids wraps; the bus does not
know one of them, and the other one goes. -/
def twoWatched : List WatchOp :=
  [.logOpen ⟨some (3, 4), fun _ => []⟩ ":1.1", .logOpen ⟨some (5, 6), fun _ => []⟩ ":1.2",
    .logOpen ⟨some (7, 8), fun _ => []⟩ ":1.1", .getNameOwnerReply ⟨none, fun _ => []⟩ 1 none,
    .logOpen ⟨some (9, 10), fun _ => []⟩ ":1.3",
    .nameOwnerChanged ⟨none, fun _ => []⟩ ⟨.signal, "org.freedesktop.DBus", "/org/freedesktop/DBus",
      dbusInterface, "NameOwnerChanged", [.string ":1.1", .string ":1.1", .string ""]⟩]

theorem watchesBalanced_twoWatched :
    ∃ s, Runs.run (watchStep DBusLogServer.anybody)
        ((DBusLogServer.new .system "/logger" () { new with lastWatchId := -2 }).start klass)
        twoWatched = some s ∧
      s.peers.values.map (fun peer => (peer.name, peer.watchId)) = [(":1.3", 3)] ∧ Balanced s := by
  obtain ⟨s, hs, hpeers⟩ := Option.map_eq_some_iff.mp (by decide +kernel :
    (Runs.run (watchStep DBusLogServer.anybody)
      ((DBusLogServer.new .system "/logger" () { new with lastWatchId := -2 }).start klass)
      twoWatched).map (fun s => s.peers.values.map fun peer => (peer.name, peer.watchId)) =
        some [(":1.3", 3)])
  exact ⟨s, hs, hpeers, (watchesBalanced DBusLogServer.anybody .system "/logger" () (-2) twoWatched s
    hs).1⟩

end DBusLogServerDbus

end DBusLog
