import FxIP.Irc.Calls

/-!
# What is stored fits a segment

In a call the threads leave the connection and the flags as they are, and the
length that they hand over to uIP is at most that of a segment.
-/

namespace FxIP

variable {mb : List UInt8} {p : Psock} {uip uip' : Uip} {buf : Sendptr} {len : Nat}
    {m m' : Messages}
variable {app app' : IrcState} {go : Bool}

/-- `uip'` is `uip`, or has a segment stored in the same call. -/
structure StoresFit (uip uip' : Uip) : Prop where
  conn : uip'.conn = uip.conn
  flags : uip'.flags = uip.flags
  slen : uip'.slen = uip.slen ∨ uip'.slen ≤ uip.conn.mss

theorem StoresFit.refl (uip : Uip) : StoresFit uip uip := ⟨rfl, rfl, .inl rfl⟩

theorem StoresFit.trans {uip'' : Uip} (h : StoresFit uip uip') (h' : StoresFit uip' uip'') :
    StoresFit uip uip'' := by
  refine ⟨h'.conn.trans h.conn, h'.flags.trans h.flags, ?_⟩
  rcases h'.slen with heq | hle
  · rw [heq]
    exact h.slen
  · exact .inr (h.conn ▸ hle)

theorem uipSend_fits (data : List UInt8) (h : len ≤ uip.conn.mss) :
    StoresFit uip (uipSend uip data len) := by
  rw [uipSend]
  split
  · exact ⟨rfl, rfl, .inr h⟩
  · exact .refl uip

theorem sendData_fits (mb : List UInt8) (p : Psock) (uip : Uip) :
    StoresFit uip (sendData mb p uip).2.2 := by
  rw [sendData]
  split
  · by_cases hlt : p.sendlen > uip.conn.mss
    · simp only [if_pos hlt]
      exact uipSend_fits _ (Nat.le_refl _)
    · simp only [if_neg hlt]
      exact uipSend_fits _ (Nat.le_of_not_lt hlt)
  · exact .refl uip

theorem psockSendWait_fits (mb : List UInt8) (p : Psock) (uip : Uip) :
    StoresFit uip ((psockSendWait mb p uip).elim Prod.snd fun r => r.2.2) := by
  simp only [psockSendWait]
  split
  · exact sendData_fits ..
  · exact sendData_fits ..

theorem psockSendRound_fits (mb : List UInt8) (p : Psock) (uip : Uip) :
    StoresFit uip ((psockSendRound mb (p, uip)).elim (fun s => s.2) fun r => r.2.2) := by
  rw [psockSendRound]
  split
  · exact psockSendWait_fits mb p uip
  · exact .refl uip

theorem psockSendLoop_fits {r : PtResult × Psock × Uip}
    (h : (psockSendLoop mb (p, uip)).Returns r) :
    StoresFit uip r.2.2 := by
  refine Comp.Returns.loop_invariant (fun s => StoresFit uip s.2) (fun r => StoresFit uip r.2.2) ?_
    ?_ (.refl uip) h
  · rintro ⟨q, u⟩ ⟨q', u'⟩ hI hround
    have hfits := psockSendRound_fits mb q u
    rw [Comp.returns_pure.mp hround] at hfits
    exact StoresFit.trans hI hfits
  · rintro ⟨q, u⟩ r hI hround
    have hfits := psockSendRound_fits mb q u
    rw [Comp.returns_pure.mp hround] at hfits
    exact StoresFit.trans hI hfits

theorem psockSend_fits {r : PtResult × Psock × Uip} (h : (psockSend mb p uip buf len).Returns r) :
    StoresFit uip r.2.2 := by
  unfold psockSend at h
  split at h
  · split at h
    · obtain rfl := Comp.returns_pure.mp h
      exact .refl uip
    · exact psockSendLoop_fits h
  · have hfits := psockSendWait_fits mb p uip
    split at h
    · rename_i again hround
      rw [hround] at hfits
      exact hfits.trans (psockSendLoop_fits h)
    · rename_i result hround
      rw [hround] at hfits
      obtain rfl := Comp.returns_pure.mp h
      exact hfits

-- ---------------------------------------------------------------------------
-- The threads
-- ---------------------------------------------------------------------------

theorem send_fits {α : Type} {f : PtResult × Psock × Uip → Comp α} {g : α → Uip} {r : α}
    (hr : (psockSend mb p uip buf len >>= f).Returns r)
    (hf : ∀ x r, (f x).Returns r → StoresFit x.2.2 (g r)) : StoresFit uip (g r) := by
  obtain ⟨x, hsend, hrest⟩ := Comp.returns_bind.mp hr
  exact (psockSend_fits hsend).trans (hf x r hrest)

theorem ircThreadSend_fits {line : List UInt8} {next : IrcPt} {r : Bool × IrcState × Uip}
    (hr : (ircThreadSend m app uip line next).Returns r) : StoresFit uip r.2.2 := by
  refine send_fits (g := fun r => r.2.2) hr fun x r hrest => ?_
  dsimp only at hrest
  split at hrest <;> (obtain rfl := Comp.returns_pure.mp hrest; exact .refl _)

theorem ircThreadReadto_fits {next : IrcPt} {r : Bool × IrcState × Uip}
    (hr : (ircThreadReadto app uip next).Returns r) : StoresFit uip r.2.2 := by
  obtain ⟨x, -, hrest⟩ := Comp.returns_bind.mp hr
  dsimp only at hrest
  split at hrest <;> (obtain rfl := Comp.returns_pure.mp hrest; exact .refl _)

theorem ircThread_fits (hr : (ircThread m app uip).Returns (some (go, m', app', uip'))) :
    StoresFit uip uip' := by
  have hsend {line : List UInt8} {next : IrcPt} (hr : ((fun r => some (r.1, m, r.2.1, r.2.2)) <$>
      ircThreadSend m app uip line next).Returns (some (go, m', app', uip'))) :
          StoresFit uip uip' := by
    obtain ⟨r, hsent, heq⟩ := Comp.returns_map.mp hr
    cases heq
    exact ircThreadSend_fits hsent
  have hread {next : IrcPt} (hr : ((fun r => some (r.1, m, r.2.1, r.2.2)) <$>
      ircThreadReadto app uip next).Returns (some (go, m', app', uip'))) : StoresFit uip uip' := by
    obtain ⟨r, hread, heq⟩ := Comp.returns_map.mp hr
    cases heq
    exact ircThreadReadto_fits hread
  cases hpt : app.pt with
  | nick | user | join => exact hsend (by rw [ircThread, hpt] at hr; exact hr)
  | readto1 | readto2 | readto => exact hread (by rw [ircThread, hpt] at hr; exact hr)
  | parse =>
    have hparse := ircThread_parse hpt hr
    obtain ⟨action, -, heq⟩ := Option.map_eq_some_iff.mp hparse.symm
    cases heq
    exact .refl uip

theorem ircThread_messages (hpt : app.pt ≠ .parse)
    (hr : (ircThread m app uip).Returns (some (go, m', app', uip'))) :
    m' = m := by
  cases h : app.pt with
  | nick | user | join | readto1 | readto2 | readto =>
    rw [ircThread, h] at hr
    obtain ⟨r, -, heq⟩ := Comp.returns_map.mp hr
    cases heq
    rfl
  | parse => exact absurd h hpt

theorem ircSendCrlf_fits {r : Messages × IrcState × Uip} (hr : (ircSendCrlf m app uip).Returns r) :
    StoresFit uip r.2.2 := by
  refine send_fits (g := fun r => r.2.2) hr fun x r hrest => ?_
  dsimp only at hrest
  split at hrest <;> (obtain rfl := Comp.returns_pure.mp hrest; exact .refl _)

theorem ircSendThread_fits {r : Messages × IrcState × Uip}
    (hr : (ircSendThread m app uip).Returns r) :
    StoresFit uip r.2.2 := by
  unfold ircSendThread at hr
  split at hr
  · refine send_fits (g := fun r => r.2.2) hr fun x r hrest => ?_
    dsimp only at hrest
    split at hrest
    · obtain rfl := Comp.returns_pure.mp hrest
      exact .refl _
    · exact ircSendCrlf_fits hrest
  · exact ircSendCrlf_fits hr

end FxIP
