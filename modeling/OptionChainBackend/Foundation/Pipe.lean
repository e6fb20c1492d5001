import Mathlib.Data.List.Basic

/-!
A pipe from a sender to a receiver: values wait to be written, are written one by one, are read in
the order they were written, and wait to be taken. Nothing is lost, repeated or reordered on the way.
-/
namespace Foundation

/-- `sent` and `received` are all that was ever given to the pipe and taken from it. -/
structure Pipe (α τ β : Type) where
  sent : List α
  outbox : List α
  wire : List τ
  inbox : List β
  received : List β

namespace Pipe
variable {α τ β : Type} {p : Pipe α τ β} {encode : α → τ} {decode : τ → Option β} {capacity : ℕ}

def new : Pipe α τ β := ⟨[], [], [], [], []⟩

/-- A value is accepted while there is room for it. -/
def give (capacity : ℕ) (p : Pipe α τ β) (a : α) : Pipe α τ β :=
  if p.outbox.length < capacity then { p with sent := p.sent ++ [a], outbox := p.outbox ++ [a] }
  else p

def write (encode : α → τ) (p : Pipe α τ β) : Pipe α τ β :=
  match p.outbox with
  | [] => p
  | a :: rest => { p with outbox := rest, wire := p.wire ++ [encode a] }

/-- A value goes on the wire at once. -/
def push (encode : α → τ) (p : Pipe α τ β) (a : α) : Pipe α τ β :=
  { p with sent := p.sent ++ [a], wire := p.wire ++ [encode a] }

/-- What cannot be read is passed over; what can be read waits for room. -/
def read (decode : τ → Option β) (capacity : ℕ) (p : Pipe α τ β) : Pipe α τ β :=
  match p.wire with
  | [] => p
  | t :: rest =>
    match decode t with
    | none => { p with wire := rest }
    | some b =>
      if p.inbox.length < capacity then { p with wire := rest, inbox := p.inbox ++ [b] } else p

def take (p : Pipe α τ β) : Pipe α τ β :=
  match p.inbox with
  | [] => p
  | b :: rest => { p with inbox := rest, received := p.received ++ [b] }

/-- What was received, what waits, and what can be read of the rest is what can be read of all that
was sent, in order. -/
def Intact (encode : α → τ) (decode : τ → Option β) (p : Pipe α τ β) : Prop :=
  p.received ++ p.inbox ++ p.wire.filterMap decode ++
      p.outbox.filterMap (fun a => decode (encode a)) =
    p.sent.filterMap fun a => decode (encode a)

theorem intact_new : Intact encode decode (new : Pipe α τ β) := rfl

theorem Intact.give (h : p.Intact encode decode) (a : α) :
    (p.give capacity a).Intact encode decode := by
  unfold Pipe.give
  split_ifs
  · unfold Intact at h ⊢
    simp only [List.filterMap_append, ← h, List.append_assoc]
  · exact h

theorem Intact.write (h : p.Intact encode decode) : (p.write encode).Intact encode decode := by
  unfold Pipe.write
  cases ho : p.outbox with
  | nil => exact h
  | cons a rest =>
    unfold Intact at h ⊢
    rw [← h, ho]
    cases hd : decode (encode a) <;> simp [hd]

theorem Intact.push (h : p.Intact encode decode) (ho : p.outbox = []) (a : α) :
    (p.push encode a).Intact encode decode := by
  unfold Intact Pipe.push at *
  rw [ho] at h ⊢
  cases hd : decode (encode a) <;> simp [← h, hd]

theorem Intact.read (h : p.Intact encode decode) :
    (p.read decode capacity).Intact encode decode := by
  unfold Pipe.read
  cases hw : p.wire with
  | nil => exact h
  | cons t rest =>
    unfold Intact at h
    rw [hw] at h
    dsimp only
    cases hd : decode t with
    | none =>
      unfold Intact
      rw [← h]
      simp [hd]
    | some b =>
      dsimp only
      split_ifs
      · unfold Intact
        rw [← h]
        simp [hd]
      · unfold Intact
        rw [hw]
        exact h

theorem Intact.take (h : p.Intact encode decode) : p.take.Intact encode decode := by
  unfold Pipe.take
  cases hi : p.inbox with
  | nil => exact h
  | cons b rest =>
    unfold Intact at h ⊢
    rw [← h, hi]
    simp

/-- If all that was sent can be read, it is received in the order it was sent. -/
theorem Intact.received {view : α → β} (h : p.Intact encode decode)
    (hall : ∀ a ∈ p.sent, decode (encode a) = some (view a)) :
    p.received <+: p.sent.map view ∧
      (p.inbox = [] → p.wire = [] → p.outbox = [] → p.received = p.sent.map view) := by
  have hsent : p.sent.filterMap (fun a => decode (encode a)) = p.sent.map view := by
    rw [← List.filterMap_eq_map]
    exact List.filterMap_congr hall
  unfold Intact at h
  rw [hsent, List.append_assoc, List.append_assoc] at h
  refine ⟨⟨_, h⟩, fun hi hw ho => ?_⟩
  rw [hi, hw, ho] at h
  simpa using h

@[simp] theorem push_outbox (a : α) : (p.push encode a).outbox = p.outbox := rfl
@[simp] theorem push_sent (a : α) : (p.push encode a).sent = p.sent ++ [a] := rfl

@[simp] theorem read_outbox : (p.read decode capacity).outbox = p.outbox := by
  unfold Pipe.read
  cases p.wire with
  | nil => rfl
  | cons t rest =>
    dsimp only
    cases decode t with
    | none => rfl
    | some b =>
      dsimp only
      split_ifs <;> rfl

@[simp] theorem read_sent : (p.read decode capacity).sent = p.sent := by
  unfold Pipe.read
  cases p.wire with
  | nil => rfl
  | cons t rest =>
    dsimp only
    cases decode t with
    | none => rfl
    | some b =>
      dsimp only
      split_ifs <;> rfl

@[simp] theorem take_outbox : p.take.outbox = p.outbox := by
  unfold Pipe.take
  cases p.inbox <;> rfl

@[simp] theorem take_sent : p.take.sent = p.sent := by
  unfold Pipe.take
  cases p.inbox <;> rfl

@[simp] theorem read_received : (p.read decode capacity).received = p.received := by
  unfold Pipe.read
  cases p.wire with
  | nil => rfl
  | cons t rest =>
    dsimp only
    cases decode t with
    | none => rfl
    | some b =>
      dsimp only
      split_ifs <;> rfl

@[simp] theorem give_inbox (a : α) : (p.give capacity a).inbox = p.inbox := by
  unfold Pipe.give
  split_ifs <;> rfl

@[simp] theorem give_received (a : α) : (p.give capacity a).received = p.received := by
  unfold Pipe.give
  split_ifs <;> rfl

@[simp] theorem write_inbox : (p.write encode).inbox = p.inbox := by
  unfold Pipe.write
  cases p.outbox <;> rfl

@[simp] theorem write_received : (p.write encode).received = p.received := by
  unfold Pipe.write
  cases p.outbox <;> rfl

theorem take_cons {b : β} {rest : List β} (h : p.inbox = b :: rest) :
    p.take = { p with inbox := rest, received := p.received ++ [b] } := by
  unfold Pipe.take
  rw [h]

/-- A receiver with room for one value takes them one by one. -/
theorem read_one (h : p.inbox = []) :
    (p.read decode 1).inbox = [] ∨ ∃ b, (p.read decode 1).inbox = [b] := by
  unfold Pipe.read
  cases p.wire with
  | nil => exact .inl h
  | cons t rest =>
    dsimp only
    cases decode t with
    | none => exact .inl h
    | some b => exact .inr ⟨b, by simp [h]⟩

end Pipe
end Foundation
