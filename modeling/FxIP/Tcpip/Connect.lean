import Mathlib.Data.Fintype.Card
import Mathlib.Data.Fintype.Pigeonhole
import Mathlib.Logic.Function.Iterate
import FxIP.Tcpip.Input

/-!
# Opening a connection

`uip_connect` tries one local port after another. There are more ports than
connections, so it comes to one that is not used; and then the connection that
it opens can be told from all others.
-/

namespace FxIP.Tcpip

variable {s : Stack} {i : Fin UIP_CONNS} {p : UInt16}

theorem toNat_iterate_nextPort {k : Nat} (hp : p.toNat < 32000) (hk : k ≤ 27904) :
    (nextPort^[k] p).toNat = if p.toNat + k < 32000 then p.toNat + k else p.toNat + k - 27904 := by
  induction k with
  | zero =>
    rw [Function.iterate_zero, id, Nat.add_zero, if_pos hp]
  | succ k ih =>
    have hprev := ih (by omega)
    rw [Function.iterate_succ_apply']
    generalize nextPort^[k] p = q at hprev
    have hlt : q.toNat < 32000 := by
      rw [hprev]
      split <;> omega
    have hadd : (q + 1).toNat = q.toNat + 1 := by
      rw [UInt16.toNat_add, show (1 : UInt16).toNat = 1 from rfl]
      omega
    have hge : q + 1 ≥ 32000 ↔ 32000 ≤ q.toNat + 1 := by
      rw [ge_iff_le, UInt16.le_iff_toNat_le, hadd]
      rfl
    rw [nextPort]
    by_cases hend : 32000 ≤ q.toNat + 1
    · rw [if_pos (hge.mpr hend), show (4096 : UInt16).toNat = 4096 from rfl]
      split at hprev <;> split <;> omega
    · rw [if_neg (mt hge.mp hend), hadd]
      split at hprev <;> split <;> omega

theorem exists_port_not_used (s : Stack) (hp : p.toNat < 32000) :
    ∃ k < 11, ¬ s.PortUsed (nextPort^[k + 1] p) := by
  by_contra hall
  have hused (k : Fin 11) : s.PortUsed (nextPort^[k.val + 1] p) := by
    by_contra hk
    exact hall ⟨k.val, k.isLt, hk⟩
  choose user hopen hport using hused
  obtain ⟨j, k, hne, hsame⟩ := Fintype.exists_ne_map_eq_of_card_lt user (by simp)
  have hnat : (nextPort^[j.val + 1] p).toNat = (nextPort^[k.val + 1] p).toNat := by
    rw [← hport j, ← hport k, hsame]
  rw [toNat_iterate_nextPort hp (by omega), toNat_iterate_nextPort hp (by omega)] at hnat
  apply hne
  apply Fin.ext
  split at hnat <;> split at hnat <;> omega

theorem loop_port_returns {k : Nat} (hk : ¬ s.PortUsed (nextPort^[k + 1] p)) :
    ∃ q, (Comp.loop
      (fun lastport => pure (if s.PortUsed (nextPort lastport) then .inl (nextPort lastport)
      else .inr (nextPort lastport))) p : Comp UInt16).Returns q := by
  induction k generalizing p with
  | zero =>
    refine ⟨nextPort p, Comp.Returns.loop_exit (Comp.returns_pure.mpr ?_)⟩
    exact if_neg hk
  | succ k ih =>
    by_cases hused : s.PortUsed (nextPort p)
    · obtain ⟨q, hq⟩ := ih (p := nextPort p) (by rwa [← Function.iterate_succ_apply])
      refine ⟨q, Comp.Returns.loop_again (Comp.returns_pure.mpr ?_) hq⟩
      exact if_pos hused
    · refine ⟨nextPort p, Comp.Returns.loop_exit (Comp.returns_pure.mpr ?_)⟩
      exact if_neg hused

theorem findPort_not_used (h : (findPort s).Returns p) : ¬ s.PortUsed p ∧ p.toNat < 32000 := by
  refine Comp.Returns.loop_invariant (fun _ => True) (fun q => ¬ s.PortUsed q ∧ q.toNat < 32000)
    (fun _ _ _ _ => trivial) (fun lastport q _ hexit => ?_) trivial h
  have hlt : (nextPort lastport).toNat < 32000 := by
    rw [nextPort]
    split
    · decide
    · rename_i hge
      exact UInt16.lt_iff_toNat_lt.mp (UInt16.not_le.mp hge)
  have hexit := Comp.returns_pure.mp hexit
  split at hexit
  · cases hexit
  · rename_i hunused
    obtain rfl := Sum.inr.inj hexit
    exact ⟨hunused, hlt⟩

/-- `uip_connect` returns. -/
theorem uipConnect_returns (s : Stack) (ripaddr : Ipaddr) (rport : UInt16)
    (hp : s.lastport.toNat < 32000) :
    ∃ r, (uipConnect s ripaddr rport).Returns r := by
  obtain ⟨k, -, hk⟩ := exists_port_not_used s hp
  obtain ⟨p, hreturns⟩ := loop_port_returns hk
  exact ⟨_, Comp.returns_bind.mpr ⟨p, hreturns, Comp.returns_pure.mpr rfl⟩⟩

/-- The next port starts again at 4096, which is used. -/
theorem uipConnect_returns_wrapped : ∃ s : Stack, s.lastport = 31999 ∧ s.PortUsed 4096 ∧
    ∃ r, (uipConnect s (word 10 10, word 10 1) 80).Returns r := by
  let c : UipConn := { UipConn.zero with lport := 4096, tcpstateflags := { state := .established } }
  let s : Stack := { Stack.zero (fun _ => 0) with lastport := 31999, conns := fun _ => c }
  exact ⟨s, rfl, by decide +kernel, uipConnect_returns s _ _ (by decide)⟩

theorem connectFrom_cases (ripaddr : Ipaddr) (rport : UInt16) (hport : ¬ s.PortUsed p) :
    (∃ i, (uipConnectFrom s ripaddr p rport).1 = some i ∧
      Opens i s (uipConnectFrom s ripaddr p rport).2) ∨
      ((uipConnectFrom s ripaddr p rport).1 = none ∧
        (uipConnectFrom s ripaddr p rport).2 = { s with lastport := p }) := by
  rw [uipConnectFrom]
  dsimp only
  split
  · exact .inr ⟨rfl, rfl⟩
  · rename_i i hi
    refine .inl ⟨i, rfl, ?_⟩
    refine .of_update (unused_of_some (s := { s with lastport := p }) hi) rfl (.inl rfl)
      (fun j hj hsame => ?_)
      (fun _ => ⟨one_le_mss, UInt16.le_refl _, UInt16.le_refl _, zero_le_maxrtx⟩) rfl rfl
    simp only [UipConn.key, UipConn.connect, Prod.mk.injEq] at hsame
    exact hport ⟨j, hj, hsame.2.1⟩

theorem connectFrom_frame (s : Stack) (ripaddr : Ipaddr) (lport rport : UInt16) :
    ∃ conns, (uipConnectFrom s ripaddr lport rport).2 = { s with lastport := lport, conns } := by
  rw [uipConnectFrom]
  dsimp only
  split
  · exact ⟨s.conns, rfl⟩
  · exact ⟨_, rfl⟩

theorem connect_cases {ripaddr : Ipaddr} {rport : UInt16} {r : Option (Fin UIP_CONNS) × Stack}
    (h : (uipConnect s ripaddr rport).Returns r) :
    ((∃ i, r.1 = some i ∧ Opens i s r.2) ∨ (r.1 = none ∧ r.2.conns = s.conns)) ∧
      ∃ lastport conns, lastport.toNat < 32000 ∧ r.2 = { s with lastport, conns } := by
  obtain ⟨p, hp, h⟩ := Comp.returns_bind.mp h
  obtain rfl := Comp.returns_pure.mp h
  obtain ⟨hport, hlt⟩ := findPort_not_used hp
  obtain ⟨conns, hframe⟩ := connectFrom_frame s ripaddr p rport
  refine ⟨?_, p, conns, hlt, hframe⟩
  rcases connectFrom_cases ripaddr rport hport with hopens | ⟨hnone, hstack⟩
  · exact .inl hopens
  · exact .inr ⟨hnone, by rw [hstack]⟩

end FxIP.Tcpip
