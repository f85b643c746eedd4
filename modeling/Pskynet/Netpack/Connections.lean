import Pskynet.Netpack.Reassembly

set_option autoImplicit false

namespace Pskynet.Netpack

def Consumer.run (c : Consumer) (messages : List SocketMessage) : Consumer :=
  messages.foldl Consumer.receive c

def dataOf (fd : Int) : SocketMessage → List UInt8
  | .data id buffer => if id = fd then buffer else []
  | _ => []

def dataOn (messages : List SocketMessage) (fd : Int) : List UInt8 := messages.flatMap (dataOf fd)

def SocketMessage.NonEmpty : SocketMessage → Prop
  | .data _ buffer => buffer ≠ []
  | _ => True

def SocketMessage.Ends (fd : Int) : SocketMessage → Prop
  | .close id => id = fd
  | .error id _ => id = fd
  | _ => False

def LeavesNothing (messages : List SocketMessage) : Prop :=
  ∀ before message later fd, messages = before ++ message :: later → message.Ends fd →
    let ended := Consumer.new.run (before ++ [message])
    ¬HasEntry ended fd ∧
      (ended.run later).payloads fd = ended.payloads fd ++ (Consumer.new.run later).payloads fd ∧
      (HasEntry (ended.run later) fd ↔ HasEntry (Consumer.new.run later) fd)

def EndsAtBoundary (messages : List SocketMessage) : Prop :=
  ∀ before message later fd, messages = before ++ message :: later → message.Ends fd →
    (Framing.split format (dataOn before fd)).2 = []

theorem dataOn_append (before later : List SocketMessage) (fd : Int) :
    dataOn (before ++ later) fd = dataOn before fd ++ dataOn later fd :=
  List.flatMap_append

theorem dataOf_ends {fd : Int} {message : SocketMessage} (ends : message.Ends fd) (other : Int) :
    dataOf other message = [] := by
  cases message with
  | close | error => rfl
  | data | connect | accept => exact ends.elim

theorem step_received (c : Consumer) (bytes : Int → List UInt8) (message : SocketMessage)
    (nonempty : message.NonEmpty) (received : Received c bytes) :
    Received (c.receive message) (fun fd => bytes fd ++ dataOf fd message) := by
  cases message with
  | data id buffer =>
    have first := receive_received c bytes id buffer nonempty received
    have same : Function.update bytes id (bytes id ++ buffer) =
        fun fd => bytes fd ++ dataOf fd (.data id buffer) := by
      funext fd
      by_cases here : fd = id
      · subst here
        simp [dataOf]
      · have other : ¬id = fd := fun is => here is.symm
        simp [dataOf, here, other]
    rwa [same] at first
  | connect | close | accept | error =>
    simp only [dataOf, List.append_nil]
    exact received

theorem run_received (messages : List SocketMessage) (c : Consumer) (bytes : Int → List UInt8)
    (nonempty : ∀ message ∈ messages, message.NonEmpty) (received : Received c bytes) :
    Received (c.run messages) (fun fd => bytes fd ++ dataOn messages fd) := by
  induction messages generalizing c bytes with
  | nil => simpa [Consumer.run, dataOn] using received
  | cons message rest ih =>
    have first := step_received c bytes message (nonempty message (by simp)) received
    have later := ih _ _ (fun other inside => nonempty other (by simp [inside])) first
    simp only [List.append_assoc] at later
    exact later

theorem fresh_received (messages : List SocketMessage)
    (nonempty : ∀ message ∈ messages, message.NonEmpty) :
    Received (Consumer.new.run messages) (dataOn messages) := by
  have received := run_received messages .new _ nonempty new_received
  simp only [List.nil_append] at received
  exact received

theorem hasEntry_run (messages : List SocketMessage)
    (nonempty : ∀ message ∈ messages, message.NonEmpty) (fd : Int) :
    HasEntry (Consumer.new.run messages) fd ↔
      (Framing.split format (dataOn messages fd)).2 ≠ [] := by
  have received := fresh_received messages nonempty
  exact hasEntry_iff _ fd _ received.hashed (received.entry fd)

theorem leavesNothing_iff (messages : List SocketMessage)
    (nonempty : ∀ message ∈ messages, message.NonEmpty) :
    LeavesNothing messages ↔ EndsAtBoundary messages := by
  have upTo (before : List SocketMessage) (message : SocketMessage) (later : List SocketMessage)
      (fd : Int) (is : messages = before ++ message :: later) (ends : message.Ends fd) :
      dataOn (before ++ [message]) fd = dataOn before fd ∧
        ∀ other ∈ before ++ [message], other.NonEmpty := by
    refine ⟨?_, fun other inside => nonempty other ?_⟩
    · rw [dataOn_append]
      show dataOn before fd ++ (dataOf fd message ++ []) = _
      rw [dataOf_ends ends, List.append_nil, List.append_nil]
    · rw [is]
      rcases List.mem_append.mp inside with old | last
      · exact List.mem_append_left _ old
      · rw [List.mem_singleton.mp last]
        simp
  constructor
  · intro leaves before message later fd is ends
    obtain ⟨same, fine⟩ := upTo before message later fd is ends
    have gone := (leaves before message later fd is ends).1
    rw [hasEntry_run _ fine fd, same] at gone
    exact not_not.mp gone
  · intro boundary before message later fd is ends
    obtain ⟨same, fine⟩ := upTo before message later fd is ends
    have whole := boundary before message later fd is ends
    have rest : ∀ other ∈ later, other.NonEmpty := by
      intro other inside
      refine nonempty other ?_
      rw [is]
      exact List.mem_append_right _ (List.mem_cons_of_mem _ inside)
    have ended := fresh_received _ fine
    have joined := run_received later _ _ rest ended
    have fresh := fresh_received later rest
    have split : Framing.split format (dataOn (before ++ [message]) fd ++ dataOn later fd) =
        ((Framing.split format (dataOn before fd)).1 ++ (Framing.split format (dataOn later fd)).1,
          (Framing.split format (dataOn later fd)).2) := by
      rw [Framing.split_append, same, whole, List.nil_append]
    refine ⟨?_, ?_, ?_⟩
    · rw [hasEntry_run _ fine fd, same]
      exact not_not.mpr whole
    · rw [joined.payloads fd, ended.payloads fd, fresh.payloads fd, split, same]
    · rw [hasEntry_iff _ fd _ joined.hashed (joined.entry fd), split, hasEntry_run later rest fd]

def closedBehindPacket : List SocketMessage := [.data 5 [0, 1, 7], .close 5]

theorem closedBehindPacket_leavesNothing :
    (∀ message ∈ closedBehindPacket, message.NonEmpty) ∧ LeavesNothing closedBehindPacket := by
  have nonempty : ∀ message ∈ closedBehindPacket, message.NonEmpty := by
    simp [closedBehindPacket, SocketMessage.NonEmpty]
  refine ⟨nonempty, (leavesNothing_iff closedBehindPacket nonempty).mpr ?_⟩
  intro before message later fd is ends
  rcases before with _ | ⟨first, _ | ⟨second, more⟩⟩
  · rw [← (List.cons.inj is).1] at ends
    exact ends.elim
  · obtain ⟨rfl, tail⟩ := List.cons.inj is
    rw [← (List.cons.inj tail).1] at ends
    have whole := split_whole 0 1 [7] (by decide)
    have sent : dataOn [.data 5 [0, 1, 7]] fd = [0, 1, 7] := by
      rw [← (show (5 : Int) = fd from ends)]
      rfl
    rw [sent, whole]
    exact congrArg Prod.snd split_nil
  · simp [closedBehindPacket] at is

theorem half_header_left : ¬LeavesNothing [.data 5 [0], .close 5] := by
  intro leaves
  have gone := (leaves [.data 5 [0]] (.close 5) [] 5 rfl rfl).1
  rw [hasEntry_run _ (by simp [SocketMessage.NonEmpty])] at gone
  have sent : dataOn ([.data 5 [0]] ++ [.close 5]) 5 = [0] := rfl
  rw [sent, split_single] at gone
  exact gone (List.cons_ne_nil _ _)

end Pskynet.Netpack
