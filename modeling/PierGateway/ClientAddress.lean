import PierGateway.OidcHandlers

/-!
# The client address behind one proxy

The limiter's key is read from the forwarding header, to which the proxy in front of
the gateway adds the address it was called from. The header may come in several
lines. Only the first of them is read, so the key is the proxy's entry when that is in
the first line, and else what the client wrote there.
-/
namespace PierGateway.WebUI
open GoStrings GoUnicode HttpMessages

def xForwardedFor : Str := str "X-Forwarded-For"

/-- The address of a peer as a proxy writes it into a list. -/
structure PeerAddress where
  address : Str
  nonempty : address ≠ []
  plain : comma ∉ address
  trimmed : trimSpace address = address

/-- The forms in which a proxy adds an entry at the end of a list of lines. -/
inductive Recording where
  | append
  | newLine
deriving DecidableEq

def appendToLast (peer : Str) : List Str → List Str
  | [] => [peer]
  | [line] => [line ++ comma :: space :: peer]
  | line :: lines => line :: appendToLast peer lines

/-- The lines the gateway receives from those the client has sent. -/
def Recording.record (how : Recording) (peer : Str) (lines : List Str) : List Str :=
  match how with
  | .append => appendToLast peer lines
  | .newLine => lines ++ [peer]

/-- The last entry of a line. -/
def lastEntry (line : Str) : Str := trimSpace (((lastCut comma line).map Prod.snd).getD line)

theorem clientIP_eq (r : UIRequest) :
    clientIP r = if r.header.get xForwardedFor ≠ [] then lastEntry (r.header.get xForwardedFor)
      else (splitHost r.remoteAddr).getD r.remoteAddr := by
  unfold clientIP lastEntry xForwardedFor
  dsimp only
  by_cases hget : r.header.get (str "X-Forwarded-For") ≠ []
  · rw [if_pos hget, if_pos hget]
    cases lastCut comma (r.header.get (str "X-Forwarded-For")) <;> rfl
  · rw [if_neg hget, if_neg hget]

variable {peer : PeerAddress}

theorem lastEntry_peer : lastEntry peer.address = peer.address := by
  unfold lastEntry
  rw [lastCut_eq_none peer.plain]
  exact peer.trimmed

theorem lastEntry_appended (line : Str) :
    lastEntry (line ++ comma :: space :: peer.address) = peer.address := by
  have hplain : comma ∉ space :: peer.address := by
    rw [List.mem_cons]
    rintro (hspace | hmem)
    · exact absurd hspace (by decide)
    · exact peer.plain hmem
  unfold lastEntry
  rw [lastCut_append line hplain]
  exact (trimSpace_space peer.address).trans peer.trimmed

/-- The entry of the proxy is in the first line. -/
def InFirstLine (how : Recording) (lines : List Str) : Prop :=
  lines = [] ∨ (how = .append ∧ ∃ line, lines = [line])

/-- The first line the gateway receives ends with the proxy's entry, or it is the client's. -/
theorem headD_record (peer : PeerAddress) (how : Recording) (lines : List Str) :
    (InFirstLine how lines ∧ (how.record peer.address lines).headD [] ≠ [] ∧
        lastEntry ((how.record peer.address lines).headD []) = peer.address) ∨
      (¬InFirstLine how lines ∧ (how.record peer.address lines).headD [] = lines.headD []) := by
  match lines, how with
  | [], .append => exact .inl ⟨.inl rfl, peer.nonempty, lastEntry_peer⟩
  | [], .newLine => exact .inl ⟨.inl rfl, peer.nonempty, lastEntry_peer⟩
  | [line], .append =>
      refine .inl ⟨.inr ⟨rfl, line, rfl⟩, ?_, lastEntry_appended line⟩
      simp [Recording.record, appendToLast]
  | _ :: _, .newLine => exact .inr ⟨by simp [InFirstLine], rfl⟩
  | _ :: _ :: _, .append => exact .inr ⟨by simp [InFirstLine], rfl⟩

/-- The key is the address of the peer exactly when the entry of the proxy is in the first line,
or when what is read instead happens to be that address. -/
theorem clientIP_eq_peer_iff (peer : PeerAddress) (how : Recording) (lines : List Str)
    (r : UIRequest) (hr : r.header.values xForwardedFor = how.record peer.address lines) :
    clientIP r = peer.address ↔ InFirstLine how lines ∨
      (lines.headD [] ≠ [] ∧ lastEntry (lines.headD []) = peer.address) ∨
      (lines.headD [] = [] ∧ (splitHost r.remoteAddr).getD r.remoteAddr = peer.address) := by
  have hget : r.header.get xForwardedFor = (how.record peer.address lines).headD [] := by
    unfold Header.get
    rw [hr]
  rw [clientIP_eq, hget]
  rcases headD_record peer how lines with ⟨hin, hne, hentry⟩ | ⟨hout, hfirst⟩
  · rw [if_pos hne]
    exact iff_of_true hentry (.inl hin)
  · rw [hfirst]
    generalize lines.headD [] = first
    by_cases hempty : first = []
    · simp [hempty, hout]
    · simp [hempty, hout]

/-- A peer, as a proxy records it. -/
def officePeer : PeerAddress where
  address := str "203.0.113.7"
  nonempty := by decide +kernel
  plain := by decide +kernel
  trimmed := by decide +kernel

/-- A request that comes with these lines. -/
def forwarded (lines : List Str) : UIRequest where
  method := str "GET"
  url := { path := str "/api/v1/auth/login" }
  header := .ofLines (lines.map fun line => (xForwardedFor, line))
  remoteAddr := str "10.0.0.1:1234"

theorem clientIP_eq_peer_iff_office :
    clientIP (forwarded [str "198.51.100.5, 203.0.113.7"]) = officePeer.address ↔
      InFirstLine .append [str "198.51.100.5"] ∨
        ([str "198.51.100.5"].headD [] ≠ [] ∧
          lastEntry ([str "198.51.100.5"].headD []) = officePeer.address) ∨
        ([str "198.51.100.5"].headD [] = [] ∧
          (splitHost (str "10.0.0.1:1234")).getD (str "10.0.0.1:1234") = officePeer.address) :=
  clientIP_eq_peer_iff officePeer .append [str "198.51.100.5"]
    (forwarded [str "198.51.100.5, 203.0.113.7"]) (by decide)

/-- The key is not always the address of the peer, and one peer can have many keys. -/
theorem key_can_be_forged :
    (¬∀ (peer : PeerAddress) (how : Recording) (lines : List Str) (r : UIRequest),
      r.header.values xForwardedFor = how.record peer.address lines → clientIP r = peer.address) ∧
      ¬∀ (peer : PeerAddress) (how how' : Recording) (lines lines' : List Str) (r r' : UIRequest),
        r.header.values xForwardedFor = how.record peer.address lines →
          r'.header.values xForwardedFor = how'.record peer.address lines' →
            clientIP r = clientIP r' := by
  have hr : (forwarded [str "198.51.100.5", str "203.0.113.7"]).header.values xForwardedFor =
      Recording.newLine.record officePeer.address [str "198.51.100.5"] := by decide
  have hr' : (forwarded [str "203.0.113.7"]).header.values xForwardedFor =
      Recording.newLine.record officePeer.address [] := by decide
  constructor
  · intro hall
    exact absurd (hall officePeer .newLine _ _ hr) (by decide)
  · intro hall
    exact absurd (hall officePeer .newLine .newLine _ _ _ _ hr hr') (by decide)

end PierGateway.WebUI
