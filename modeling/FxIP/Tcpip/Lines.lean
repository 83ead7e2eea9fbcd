import FxIP.Irc.LoginData
import FxIP.Tcpip.Delivery
import FxIP.Tcpip.Refinement

/-!
# The lines of the server

The lines that the client takes are those that the server has sent, in order,
whatever becomes of the segments on their way.
-/

namespace FxIP.Tcpip

open Lines

variable {c c' : Client} {r : IrcReader} {peer : List UInt8} {stream : List (List UInt8)}
    {es : List ClientEvent}

/-- The frames for the open connection are segments of the server, which sends
`peer`; and what the client has not read yet stays where it is. -/
def Serves (peer : List UInt8) (c : Client) (e : ClientEvent) : Prop :=
  Follows DataKept c e ∧ ∀ e', e = .network e' → FromPeer peer 0 c.net.reader e'

theorem delivered_step {e : ClientEvent} (hok : c.net.reader.Ok peer 0) (hserves : Serves peer c e)
    (hstep : ClientStep c e c') : c'.net.reader.Ok peer 0 := by
  cases hstep with
  | submit | thread => exact hok
  | quiet _ _ hnet _ | calls _ _ hnet _ _ => exact ok_delivery hok (hserves.2 _ rfl) hnet.2
  | @closes e _ _ _ _ hnet _ _ hend =>
    have hfirst := ok_delivery hok (hserves.2 e rfl) hnet.2
    exact ok_delivery hfirst (e := .appReturn _) trivial hend.2
  | skips _ _ hnet | sends _ _ _ hnet => exact ok_delivery hok (e := .appReturn _) trivial hnet.2

theorem delivered_starts {appstate : Fin UIP_CONNS → IrcState} {messages : Messages}
    (h0 : Starts appstate messages c) :
    c.net.reader.Ok peer 0 := by
  cases h0 with
  | @init behind iss lastport first start _ _ _ hnet =>
    have hok : Delivery.Ok peer 0 ⟨networkInit behind iss lastport, start, []⟩ :=
      ⟨List.nil_prefix, fun hread => hread.elim⟩
    exact ok_delivery hok (e := .connect SERVER IRC_PORT) trivial hnet.2

theorem lines_of_prefix (hinv : ReaderInv r) (hrun : r.received <+: stream.flatten)
    (hstream : ∀ line ∈ stream, IsLine 0x0A line ∧ line.length ≤ SIZEOF_INPUTBUFFER) :
    r.lines.map TakenLine.bytes <+: stream := by
  obtain ⟨rest, hrest, -⟩ := hinv.place
  exact prefix_of_flatten hinv.isLine (fun line hline => (hstream line hline).1) (hrest ▸ hrun)

/-- Enough for `Serves`: nothing is left unread, and no line is sent when there is
data to read. -/
def ServesAt (peer : List UInt8) (p : Nat) (c : Client) (e : ClientEvent) : Prop :=
  Regular c e ∧ (c.appstate 0).psock.readlen = 0 ∧
    match e with
    | .network e => FromPeerAt peer p 0 c.net.reader e
    | .thread => c.turn ≠ .outside ∧ ((c.appstate 0).pt.line = [] ∨
        (c.appstate 0).psock.fresh c.uip = [])
    | _ => True

instance (peer : List UInt8) (p : Nat) (c : Client) :
    (e : ClientEvent) → Decidable (ServesAt peer p c e)
  | .network e =>
    inferInstanceAs (Decidable (Regular c (.network e) ∧ _ ∧ FromPeerAt peer p 0 c.net.reader e))
  | .thread => inferInstanceAs (Decidable (Regular c .thread ∧ _ ∧ c.turn ≠ .outside ∧ (_ ∨ _)))
  | .submit text => inferInstanceAs (Decidable (Regular c (.submit text) ∧ _ ∧ True))
  | .sendThread => inferInstanceAs (Decidable (Regular c .sendThread ∧ _ ∧ True))

theorem serves_at {p : Nat} {e : ClientEvent} (h : ServesAt peer p c e) : Serves peer c e := by
  obtain ⟨hregular, hread, hserves⟩ := h
  refine ⟨⟨hregular, fun s e' hcovers happ _ huip => ⟨.inl (by rw [happ, hread]), ?_⟩⟩, ?_⟩
  · rintro rfl hline hfresh
    cases e with
    | thread =>
      rw [happ, huip hserves.1] at hfresh
      rw [happ] at hline
      rcases hserves.2 with hnone | hnone
      · exact absurd hnone hline
      · exact absurd hnone hfresh
    | network _ => exact absurd rfl hcovers.1
    | submit _ | sendThread => cases hcovers
  · rintro e' rfl
    exact fromPeer_at hserves

/-- The login up to the third line, after the first line of the server. -/
def joining : List ClientEvent :=
  loggingIn ++
  [.network (.receive [69, 0, 0, 40, 0, 1, 0, 0, 64, 6, 2, 136, 163, 123, 192, 192, 10, 10, 10, 2,
      26, 11, 124, 255, 5, 6, 7, 9, 1, 2, 4, 17, 80, 16, 5, 180, 137, 172, 0, 0]),
    .thread, .thread, .sendThread,
    .network (.receive [69, 0, 0, 40, 0, 1, 0, 0, 64, 6, 2, 136, 163, 123, 192, 192, 10, 10, 10, 2,
      26, 11, 124, 255, 5, 6, 7, 9, 1, 2, 4, 46, 80, 16, 5, 180, 137, 143, 0, 0]),
    .thread, .thread, .sendThread,
    .network (.receive [69, 0, 0, 44, 0, 1, 0, 0, 64, 6, 2, 132, 163, 123, 192, 192, 10, 10, 10, 2,
      26, 11, 124, 255, 5, 6, 7, 9, 1, 2, 4, 46, 80, 24, 5, 180, 20, 16, 0, 0, 104, 105, 13, 10]),
    .thread, .thread, .sendThread]

end FxIP.Tcpip
