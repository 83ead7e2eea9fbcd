import FxIP.Tcpip.Kept

/-!
# What a frame leads to

A frame is ignored, answered without a connection, taken by a connection or by a
port that is listened to. A segment reaches a connection only if it passes every
check on its headers.
-/

namespace FxIP.Tcpip

variable {s t : Stack} {n : Next} {i : Fin UIP_CONNS}

/-- After the length in the header is taken for `uip_len`. -/
def Stack.trimmed (s : Stack) : Stack :=
  { s with appdata := 0, len := word s.buf.hdr.len.1 s.buf.hdr.len.2 }

structure Accepted (s : Stack) : Prop where
  vhl : s.buf.hdr.vhl = 0x45
  len : word s.buf.hdr.len.1 s.buf.hdr.len.2 ≤ s.len
  ipoffset : s.buf.hdr.ipoffset.1 &&& 0x3f = 0 ∧ s.buf.hdr.ipoffset.2 = 0
  destipaddr : s.hostaddr ≠ (0, 0) → s.buf.hdr.destipaddr = s.hostaddr
  ipchksum : uipIpchksum s.buf = 0xffff

structure AcceptedTcp (s : Stack) : Prop extends Accepted s where
  proto : s.buf.hdr.proto = UIP_PROTO_TCP
  tcpchksum : uipTcpchksum s.trimmed = 0xffff

inductive Input (s : Stack) : Next → Prop
  | ignored {u} : Sends s u → u.buf = s.buf → u.len = 0 → Input s (.done u)
  | echo : Accepted s → s.buf.hdr.proto = UIP_PROTO_ICMP → Input s (.done (icmpInput s.trimmed))
  | reset : AcceptedTcp s → s.demultiplex = none → Input s (.done (uipReset s.trimmed))
  | listen {m} : AcceptedTcp s → s.demultiplex = none → s.buf.hdr.flags &&& TCP_CTL = TCP_SYN →
      (∃ c, s.buf.hdr.destport = s.listenports c) → (uipFoundListen s.trimmed).Returns m → Input s m
  | found {m j} : AcceptedTcp s → s.demultiplex = some j → (uipFound s.trimmed j).Returns m →
      Input s m

theorem sends_ignored (s : Stack) (msg : String) : Sends s (uipDrop (s.trimmed.uipLog msg)) :=
  ⟨rfl, rfl, rfl, rfl, rfl, rfl, rfl⟩

theorem demultiplex_trimmed : s.trimmed.demultiplex = s.demultiplex := rfl

theorem input_tcpInput (ha : Accepted s) (hp : s.buf.hdr.proto = UIP_PROTO_TCP)
    (hn : (tcpInput s.trimmed).Returns n) : Input s n := by
  rw [tcpInput, demultiplex_trimmed] at hn
  split at hn
  · obtain rfl := Comp.returns_pure.mp hn
    exact .ignored (sends_ignored s _) rfl rfl
  · rename_i hchk
    have htcp : AcceptedTcp s := ⟨ha, hp, Decidable.not_not.mp hchk⟩
    split at hn
    · rename_i i hi
      exact .found htcp hi hn
    · rename_i hnone
      split at hn
      · obtain rfl := Comp.returns_pure.mp hn
        exact .reset htcp hnone
      · rename_i hsyn
        split at hn
        · rename_i hport
          exact .listen htcp hnone (Decidable.not_not.mp hsyn) hport hn
        · obtain rfl := Comp.returns_pure.mp hn
          exact .reset htcp hnone

theorem input_uipInput (hn : (uipInput s).Returns n) : Input s n := by
  have hignored (msg : String) : Sends s (uipDrop (({ s with appdata := 0 } : Stack).uipLog msg)) :=
    ⟨rfl, rfl, rfl, rfl, rfl, rfl, rfl⟩
  rw [uipInput] at hn
  dsimp only at hn
  split at hn
  · obtain rfl := Comp.returns_pure.mp hn
    exact .ignored (hignored _) rfl rfl
  rename_i hvhl
  split at hn
  · obtain rfl := Comp.returns_pure.mp hn
    exact .ignored (hignored _) rfl rfl
  rename_i hlen
  split at hn
  · obtain rfl := Comp.returns_pure.mp hn
    exact .ignored (sends_ignored s _) rfl rfl
  rename_i hfrag
  split at hn
  · obtain rfl := Comp.returns_pure.mp hn
    exact .ignored ⟨rfl, rfl, rfl, rfl, rfl, rfl, rfl⟩ rfl rfl
  rename_i hdest
  split at hn
  · obtain rfl := Comp.returns_pure.mp hn
    exact .ignored (sends_ignored s _) rfl rfl
  rename_i hchk
  have ha : Accepted s :=
    { vhl := Decidable.not_not.mp hvhl
      len := UInt16.not_lt.mp hlen
      ipoffset := by
        rw [not_or] at hfrag
        exact ⟨Decidable.not_not.mp hfrag.1, Decidable.not_not.mp hfrag.2⟩
      destipaddr := fun hne => Decidable.not_not.mp fun hd => hdest ⟨hne, hd⟩
      ipchksum := Decidable.not_not.mp hchk }
  split at hn
  · rename_i hp
    exact input_tcpInput ha hp hn
  split at hn
  · obtain rfl := Comp.returns_pure.mp hn
    exact .ignored (sends_ignored s _) rfl rfl
  · rename_i hp
    obtain rfl := Comp.returns_pure.mp hn
    exact .echo ha (Decidable.not_not.mp hp)

-- ---------------------------------------------------------------------------
-- New connections
-- ---------------------------------------------------------------------------

/-- The connections that a search may come up with. -/
def UipConn.Unused (c : UipConn) : Prop :=
  c.tcpstateflags = .closed ∨ c.tcpstateflags = { state := .timeWait }

theorem findUnused_unused {conns : Fin UIP_CONNS → UipConn} {conn : Option (Fin UIP_CONNS)}
    {cs : List (Fin UIP_CONNS)} (hconn : ∀ j, conn = some j → (conns j).Unused)
    (h : findUnused conns conn cs = some i) : (conns i).Unused := by
  induction cs generalizing conn with
  | nil => exact hconn i h
  | cons c cs ih =>
    rw [findUnused] at h
    split at h
    · rename_i hc
      obtain rfl := Option.some.inj h
      exact .inl hc
    · split at h
      · rename_i hc
        refine ih (fun j hj => ?_) h
        obtain rfl := Option.some.inj hj
        exact .inr hc.1
      · exact ih hconn h

theorem unused_of_some (h : s.unused = some i) : (s.conns i).Unused :=
  findUnused_unused (fun j hj => absurd hj (Option.some_ne_none j).symm) h

/-- A connection that is opened: with a key that no connection in use has. -/
structure Opens (i : Fin UIP_CONNS) (s t : Stack) : Prop where
  unused : (s.conns i).Unused
  others : ∀ j, j ≠ i → t.conns j = s.conns j
  state : (t.conns i).tcpstateflags = { state := .synSent } ∨
    (t.conns i).tcpstateflags = { state := .synRcvd }
  fresh : ∀ j, (s.conns j).tcpstateflags ≠ .closed → (s.conns j).key ≠ (t.conns i).key
  bounded : (s.conns i).Bounded → (t.conns i).Bounded
  hostaddr : t.hostaddr = s.hostaddr
  listenports : t.listenports = s.listenports

theorem Opens.of_update {c : UipConn} (hunused : (s.conns i).Unused)
    (hconns : t.conns = Function.update s.conns i c)
    (hstate : c.tcpstateflags = { state := .synSent } ∨ c.tcpstateflags = { state := .synRcvd })
    (hfresh : ∀ j, (s.conns j).tcpstateflags ≠ .closed → (s.conns j).key ≠ c.key)
    (hbounded : (s.conns i).Bounded → c.Bounded) (hhost : t.hostaddr = s.hostaddr)
    (hports : t.listenports = s.listenports) : Opens i s t := by
  have hself : t.conns i = c := by rw [hconns, Function.update_self]
  refine ⟨hunused, fun j hj => ?_, ?_, ?_, ?_, hhost, hports⟩
  · rw [hconns, Function.update_of_ne hj]
  all_goals rwa [hself]

theorem Opens.sends {u : Stack} (h : Opens i s t) (ht : Sends t u) : Opens i s u := by
  have hself : u.conns = t.conns := ht.conns
  refine ⟨h.unused, fun j hj => ?_, ?_, ?_, ?_, ht.hostaddr.trans h.hostaddr,
    ht.listenports.trans h.listenports⟩
  · rw [hself, h.others j hj]
  all_goals rw [hself]
  · exact h.state
  · exact h.fresh
  · exact h.bounded

theorem not_matches_of_none (h : s.demultiplex = none) (i : Fin UIP_CONNS) :
    ¬ (s.conns i).Matches s.buf.hdr := by
  have hnone := List.find?_eq_none.mp h i (List.mem_finRange i)
  simpa using hnone

theorem matches_of_some (h : s.demultiplex = some i) : (s.conns i).Matches s.buf.hdr := by
  have hsome := List.find?_some h
  simpa using hsome

theorem foundListen_cases (hnone : s.demultiplex = none) (hn : (uipFoundListen s).Returns n) :
    (∃ i, Opens i s n.stack ∧ n.stack.conn = i ∧ n.resume = none) ∨
    (∃ t, n = .done t ∧ Sends s t ∧ t.len = 0) := by
  rw [uipFoundListen] at hn
  split at hn
  · obtain rfl := Comp.returns_pure.mp hn
    exact .inr ⟨_, rfl, ⟨rfl, rfl, rfl, rfl, rfl, rfl, rfl⟩, rfl⟩
  · rename_i i hi
    obtain ⟨mss, -, hn⟩ := Comp.returns_bind.mp hn
    obtain rfl := Comp.returns_pure.mp hn
    have hb := (evolves_setMss ((s.conns i).listen s.buf.hdr s.iss) mss)
    have hset : Opens i s (({ s with conn := i } : Stack).setConn
        (((s.conns i).listen s.buf.hdr s.iss).setMss mss)) := by
      refine .of_update (unused_of_some hi) rfl (.inr ?_) (fun j hj hsame => ?_)
        (fun h => hb.bounded ⟨one_le_mss, h.mss, h.initialmss, zero_le_maxrtx⟩) rfl rfl
      · cases mss <;> rfl
      · rw [hb.key] at hsame
        simp only [UipConn.key, UipConn.listen, Prod.mk.injEq] at hsame
        exact not_matches_of_none hnone j ⟨hj, hsame.2.1.symm, hsame.2.2.symm, hsame.1.symm⟩
    exact .inl ⟨i, hset.sends (sends_tcpSendSynack _), (sends_tcpSendSynack _).conn, rfl⟩

end FxIP.Tcpip
