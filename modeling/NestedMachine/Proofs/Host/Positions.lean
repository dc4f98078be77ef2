import NestedMachine.Proofs.Host.Transfers
import NestedMachine.Proofs.Table

/-!
# Where reads start

A descriptor of a buffer host that was opened for reading only is moved by its own reads and by
nothing else: others may write, extend, empty or replace the file, but no call touches the position
of somebody else (`moves_perform`).  So what happens to the file shows at the next read only.  It
starts where the last read stopped, or at the end of the file if the file has become shorter than
that, and in that case it delivers nothing (`inLine_deliveries`).

From this follows what is promised of the offsets that are delivered (`deliveries_in_line`).  As
long as no read finds the file shorter than where the read before it stopped, the parts that are
delivered follow one another and no offset is delivered twice.  A read that does find it shorter
moves the position back to the end of the file.  When the file grows again, the bytes behind that
end are delivered, at offsets that may have been delivered before
(`offset_delivered_twice`).
-/

namespace NestedMachine.BufferHost

set_option autoImplicit false

/-! ## Calls and deliveries -/

/-- A call on a buffer host. -/
inductive Call where
  | addFile (path : String) (contents : Bytes)
  | openFile (path : String) (flags : OpenFlags)
  | read (number size : Nat)
  | write (number : Nat) (bytes : Bytes)

/-- Make a call; the answer is what was read. -/
def Call.perform : Call → BufferAction Bytes
  | .addFile path contents => fun host => .ok [] (host.addFile path contents)
  | .openFile path flags => do
      let _ ← BufferHost.openFile path flags
      return []
  | .read number size => BufferHost.read number size
  | .write number bytes => do
      let _ ← BufferHost.write number bytes
      return []

/-- A part of a file that a read delivered. -/
structure Delivery where
  /-- What was in the file when it was read. -/
  contents : Bytes
  /-- The offset of the first byte that was delivered, or of the place where there was none. -/
  start : Nat
  bytes : Bytes
  deriving DecidableEq, Repr

namespace Delivery

/-- The offset behind the bytes that were delivered. -/
def stop (delivery : Delivery) : Nat := delivery.start + delivery.bytes.length

/-- The offsets that were delivered. -/
def offsets (delivery : Delivery) : List Nat := List.range' delivery.start delivery.bytes.length

/-- What was delivered is what was in the file. -/
structure Genuine (delivery : Delivery) : Prop where
  inside : delivery.stop ≤ delivery.contents.length
  bytes : delivery.bytes = window delivery.contents delivery.start delivery.bytes.length

/-- The delivery starts at the given offset, unless the file has become shorter than that: then it
is empty, at the end of the file. -/
inductive StartsAt (delivery : Delivery) (offset : Nat) : Prop where
  | there (start : delivery.start = offset)
  | shorter (short : delivery.contents.length < offset)
      (start : delivery.start = delivery.contents.length) (nothing : delivery.bytes = [])

end Delivery

/-- What a call delivers through a descriptor, if it reads from a file through it. -/
def Call.delivery? (number : Nat) (host : BufferHost) (call : Call) : Option Delivery :=
  match call, host.descriptors[number]?, call.perform host with
  | .read other _, some descriptor, .ok bytes _ =>
      let contents := host.files[descriptor.path]?.getD []
      if other = number then some ⟨contents, min descriptor.position contents.length, bytes⟩
      else none
  | _, _, _ => none

/-- What calls deliver through a descriptor, one after the other. -/
def deliveries (number : Nat) : List Call → BufferHost → List Delivery
  | [], _ => []
  | call :: rest, host =>
      (call.delivery? number host).toList ++
        deliveries number rest (finalState (call.perform host))

/-! ## What a call does to the descriptors -/

variable {host after : BufferHost} {number : Nat} {descriptor : BufferDescriptor}

/-- The host after a call has the same descriptors, one more, or one that was moved by a read or a
write through it. -/
inductive Effect (host : BufferHost) : Call → BufferHost → Prop where
  | still {call : Call} {after : BufferHost} (descriptors : after.descriptors = host.descriptors)
      (next : after.nextDescriptor = host.nextDescriptor) : Effect host call after
  | opened {path : String} {flags : OpenFlags} {after : BufferHost}
      (descriptors : after.descriptors =
        host.descriptors.insert host.nextDescriptor (opened path flags))
      (next : after.nextDescriptor = host.nextDescriptor + 1) :
      Effect host (.openFile path flags) after
  | read {number size position : Nat} {descriptor : BufferDescriptor} {after : BufferHost}
      (found : host.descriptors[number]? = some descriptor)
      (descriptors : after.descriptors =
        host.descriptors.insert number { descriptor with position })
      (next : after.nextDescriptor = host.nextDescriptor) : Effect host (.read number size) after
  | written {number position : Nat} {bytes : Bytes} {descriptor : BufferDescriptor}
      {after : BufferHost} (found : host.descriptors[number]? = some descriptor)
      (writable : descriptor.writable)
      (descriptors : after.descriptors =
        host.descriptors.insert number { descriptor with position })
      (next : after.nextDescriptor = host.nextDescriptor) : Effect host (.write number bytes) after

theorem effect_openFile (host : BufferHost) (path : String) (flags : OpenFlags) :
    Effect host (.openFile path flags) (finalState (openFile path flags host)) := by
  unfold openFile
  split
  · exact .still rfl rfl
  · refine .opened ?_ ?_
    all_goals
      simp only [finalState]
      split <;> rfl

theorem effect_read (host : BufferHost) (number size : Nat) :
    Effect host (.read number size) (finalState (read number size host)) := by
  by_cases standard : number = 0
  · subst standard
    exact .still rfl rfl
  by_cases reads : host.Reads number
  · obtain same | ⟨descriptor, contents, found, readable, file⟩ := reads
    · exact absurd same standard
    · rw [read_of_found standard found readable file]
      exact .read found rfl rfl
  · obtain ⟨refusal, refused⟩ := read_refused reads
    rw [refused]
    exact .still rfl rfl

theorem effect_write (host : BufferHost) (number : Nat) (bytes : Bytes) :
    Effect host (.write number bytes) (finalState (write number bytes host)) := by
  by_cases output : number = 1
  · subst output
    exact .still rfl rfl
  by_cases errors : number = 2
  · subst errors
    exact .still rfl rfl
  by_cases writes : host.Writes number
  · obtain same | same | ⟨descriptor, found, writable⟩ := writes
    · exact absurd same output
    · exact absurd same errors
    · rw [write_of_found output errors found writable rfl]
      exact .written found writable rfl rfl
  · rw [write_refused writes]
    exact .still rfl rfl

theorem effect_perform (host : BufferHost) (call : Call) :
    Effect host call (finalState (call.perform host)) := by
  cases call with
  | addFile path contents => exact .still rfl rfl
  | openFile path flags =>
      rw [Call.perform, finalState_map]
      exact effect_openFile host path flags
  | read number size => exact effect_read host number size
  | write number bytes =>
      rw [Call.perform, finalState_map]
      exact effect_write host number bytes

/-- Descriptors are numbered from three, and a new one gets a number that is not in use. -/
structure Enumerated (host : BufferHost) : Prop where
  numbered : ∀ (number : Nat) (descriptor : BufferDescriptor),
    host.descriptors[number]? = some descriptor → 2 < number ∧ number < host.nextDescriptor
  next : 2 < host.nextDescriptor

theorem enumerated_withInput (input : Bytes) : (withInput input).Enumerated := by
  refine ⟨fun number descriptor found => ?_, Nat.lt_succ_self 2⟩
  rw [withInput, Std.TreeMap.getElem?_emptyc] at found
  cases found

theorem Enumerated.insert (enumerated : host.Enumerated)
    (small : 2 < number ∧ number < after.nextDescriptor)
    (descriptors : after.descriptors = host.descriptors.insert number descriptor)
    (next : host.nextDescriptor ≤ after.nextDescriptor) : after.Enumerated := by
  refine ⟨fun other value found => ?_, enumerated.next.trans_le next⟩
  rw [descriptors, Table.getElem?_insert] at found
  split at found
  · rename_i same
    exact same ▸ small
  · obtain ⟨low, high⟩ := enumerated.numbered other value found
    exact ⟨low, high.trans_le next⟩

theorem Enumerated.effect (enumerated : host.Enumerated) {call : Call}
    (effect : Effect host call after) : after.Enumerated := by
  cases effect with
  | still descriptors next =>
      obtain ⟨numbered, start⟩ := enumerated
      rw [← descriptors, ← next] at numbered
      exact ⟨numbered, next ▸ start⟩
  | opened descriptors next =>
      exact enumerated.insert (next ▸ ⟨enumerated.next, Nat.lt_succ_self _⟩) descriptors
        (next ▸ Nat.le_succ _)
  | read found descriptors next | written found _ descriptors next =>
      exact enumerated.insert (next ▸ enumerated.numbered _ _ found) descriptors (next ▸ le_rfl)

/-! ## What moves a descriptor -/

/-- The position of a descriptor before and after a call through which nothing or something was
delivered. -/
inductive Moves (position : Nat) : Option Delivery → Nat → Prop where
  | still : Moves position none position
  | read {delivery : Delivery} (genuine : delivery.Genuine) (starts : delivery.StartsAt position) :
      Moves position (some delivery) delivery.stop

/-- Calls of others leave a descriptor that is not open for writing as it is. -/
theorem Effect.bystander {call : Call} (effect : Effect host call after)
    (enumerated : host.Enumerated) (found : host.descriptors[number]? = some descriptor)
    (closed : descriptor.writable = false) (other : ∀ size, call ≠ .read number size) :
    after.descriptors[number]? = some descriptor := by
  cases effect with
  | still descriptors next => rw [descriptors, found]
  | opened descriptors next =>
      have old := (enumerated.numbered number descriptor found).2
      rw [descriptors, Table.getElem?_insert, if_neg old.ne', found]
  | read _ descriptors next =>
      rw [descriptors, Table.getElem?_insert, if_neg, found]
      rintro rfl
      exact other _ rfl
  | written found' writable descriptors next =>
      rw [descriptors, Table.getElem?_insert, if_neg, found]
      rintro rfl
      rw [Option.some.inj (found.symm.trans found'), writable] at closed
      cases closed

theorem genuine_window (contents : Bytes) (start size : Nat) (inside : start ≤ contents.length) :
    Delivery.Genuine ⟨contents, start, window contents start size⟩ := by
  refine ⟨length_window contents start size inside, ?_⟩
  simp only [window, List.length_take, List.take_eq_take_iff, List.length_drop]
  omega

/-- A read starts at the position, or at the end of a file that is shorter. -/
theorem startsAt_min (contents : Bytes) (position size : Nat) :
    let start := min position contents.length
    Delivery.StartsAt ⟨contents, start, window contents start size⟩ position := by
  intro start
  by_cases short : contents.length < position
  · have stop : start = contents.length := Nat.min_eq_right short.le
    refine .shorter short stop ?_
    show window contents start size = []
    rw [stop, window, List.drop_length, List.take_nil]
  · exact .there (Nat.min_eq_left (Nat.le_of_not_lt short))

/-- **Only its own reads move a descriptor that is not open for writing.** -/
theorem moves_perform (enumerated : host.Enumerated)
    (found : host.descriptors[number]? = some descriptor) (closed : descriptor.writable = false)
    (call : Call) : ∃ position,
      (finalState (call.perform host)).descriptors[number]? = some { descriptor with position } ∧
        Moves descriptor.position (call.delivery? number host) position := by
  by_cases own : ∃ size, call = .read number size
  · obtain ⟨size, rfl⟩ := own
    have other : number ≠ 0 := fun standard => by
      have low := (enumerated.numbered number descriptor found).1
      omega
    by_cases reads : host.Reads number
    · obtain same | ⟨descriptor', contents, found', readable, file⟩ := reads
      · exact absurd same other
      · obtain rfl := Option.some.inj (found.symm.trans found')
        have answer := read_of_found other found readable file size
        have delivered : (Call.read number size).delivery? number host =
            some ⟨contents, min descriptor.position contents.length,
              window contents (min descriptor.position contents.length) size⟩ := by
          simp only [Call.delivery?, Call.perform, found, answer, file, Option.getD_some, if_true]
        rw [delivered, Call.perform, answer]
        exact ⟨_, descriptor_seek .., .read (genuine_window _ _ _ (Nat.min_le_right ..))
          (startsAt_min ..)⟩
    · obtain ⟨refusal, refused⟩ := read_refused reads
      have nothing : (Call.read number size).delivery? number host = none := by
        simp only [Call.delivery?, Call.perform, found, refused]
      rw [nothing, Call.perform, refused]
      exact ⟨descriptor.position, found, .still⟩
  · have others : ∀ size, call ≠ .read number size := fun size same => own ⟨size, same⟩
    have nothing : call.delivery? number host = none := by
      unfold Call.delivery?
      split
      · rename_i different
        exact if_neg fun same => others _ (by rw [same])
      · rfl
    rw [nothing]
    exact ⟨descriptor.position, (effect_perform host call).bystander enumerated found closed others,
      .still⟩

/-! ## Deliveries of a run -/

/-- Each delivery starts where the one before stopped, or at the end of a file that has become
shorter than that. -/
def InLine : Nat → List Delivery → Prop
  | _, [] => True
  | position, delivery :: rest =>
      delivery.Genuine ∧ delivery.StartsAt position ∧ InLine delivery.stop rest

/-- **What is delivered through a descriptor that is not open for writing is in line**, whatever
other descriptors do to the file. -/
theorem inLine_deliveries (enumerated : host.Enumerated)
    (found : host.descriptors[number]? = some descriptor) (closed : descriptor.writable = false)
    (calls : List Call) : InLine descriptor.position (deliveries number calls host) := by
  induction calls generalizing host descriptor with
  | nil => trivial
  | cons call rest ih =>
      obtain ⟨position, moved, moves⟩ := moves_perform enumerated found closed call
      have later := ih (enumerated.effect (effect_perform host call)) moved closed
      rw [deliveries]
      generalize call.delivery? number host = delivery at moves
      cases moves with
      | still => exact later
      | read genuine starts => exact ⟨genuine, starts, later⟩

/-! ## What a reader is promised -/

/-- What is promised of the deliveries through one descriptor. -/
structure Advances (delivered : List Delivery) : Prop where
  genuine : ∀ delivery ∈ delivered, delivery.Genuine
  /-- The first delivery starts at the beginning of the file. -/
  first : ∀ delivery ∈ delivered.head?, delivery.start = 0
  /-- Each delivery starts where the one before stopped, or is empty. -/
  next : delivered.IsChain fun earlier later => later.StartsAt earlier.stop
  /-- The offsets increase while the file is not found to be shorter than what was read of it. -/
  increasing : ∀ segment, segment <:+: delivered →
    segment.IsChain (fun earlier later => earlier.stop ≤ later.contents.length) →
      (segment.flatMap Delivery.offsets).Pairwise (· < ·)

theorem Delivery.StartsAt.start_eq {delivery : Delivery} {offset : Nat}
    (starts : delivery.StartsAt offset) (long : offset ≤ delivery.contents.length) :
    delivery.start = offset := by
  cases starts with
  | there start => exact start
  | shorter short => omega

theorem Delivery.mem_offsets {delivery : Delivery} {offset : Nat} :
    offset ∈ delivery.offsets ↔ delivery.start ≤ offset ∧ offset < delivery.stop :=
  List.mem_range'_1

theorem InLine.genuine {position : Nat} {delivered : List Delivery}
    (inLine : InLine position delivered) : ∀ delivery ∈ delivered, delivery.Genuine := by
  induction delivered generalizing position with
  | nil => exact fun _ member => (List.not_mem_nil member).elim
  | cons delivery rest ih =>
      obtain ⟨genuine, -, later⟩ := inLine
      exact List.forall_mem_cons.mpr ⟨genuine, ih later⟩

theorem InLine.isChain {position : Nat} {delivered : List Delivery}
    (inLine : InLine position delivered) :
    delivered.IsChain fun earlier later => later.StartsAt earlier.stop := by
  induction delivered generalizing position with
  | nil => exact .nil
  | cons delivery rest ih =>
      obtain ⟨-, -, later⟩ := inLine
      refine List.isChain_cons.mpr ⟨fun follower member => ?_, ih later⟩
      obtain ⟨others, rfl⟩ := List.head?_eq_some_iff.mp member
      exact later.2.1

/-- Parts that follow one another have increasing offsets, none before the first part. -/
theorem offsets_increase {segment : List Delivery}
    (follow : segment.IsChain fun earlier later => later.start = earlier.stop) :
    (segment.flatMap Delivery.offsets).Pairwise (· < ·) ∧
      ∀ delivery ∈ segment.head?, ∀ offset ∈ segment.flatMap Delivery.offsets,
        delivery.start ≤ offset := by
  induction segment with
  | nil => exact ⟨.nil, fun _ member => by cases member⟩
  | cons delivery rest ih =>
      obtain ⟨link, chained⟩ := List.isChain_cons.mp follow
      obtain ⟨increasing, bounded⟩ := ih chained
      have behind : ∀ offset ∈ rest.flatMap Delivery.offsets, delivery.stop ≤ offset := by
        intro offset member
        cases rest with
        | nil => cases member
        | cons follower others =>
            exact link follower rfl ▸ bounded follower rfl offset member
      rw [List.flatMap_cons]
      constructor
      · refine List.pairwise_append.mpr ⟨List.pairwise_lt_range', increasing, ?_⟩
        intro offset here later there
        exact (Delivery.mem_offsets.mp here).2.trans_le (behind later there)
      · rintro _ ⟨⟩ offset member
        rcases List.mem_append.mp member with here | there
        · exact (Delivery.mem_offsets.mp here).1
        · exact (Nat.le_add_right ..).trans (behind offset there)

theorem InLine.advances {delivered : List Delivery} (inLine : InLine 0 delivered) :
    Advances delivered := by
  refine ⟨inLine.genuine, ?_, inLine.isChain, ?_⟩
  · intro delivery member
    obtain ⟨rest, rfl⟩ := List.head?_eq_some_iff.mp member
    exact inLine.2.1.start_eq (Nat.zero_le _)
  · intro segment part long
    have follow : segment.IsChain fun earlier later => later.start = earlier.stop := by
      rw [List.isChain_iff_forall_rel_of_append_cons_cons] at long ⊢
      intro earlier later before behind split
      have follows := List.IsChain.infix inLine.isChain part
      have starts := List.isChain_iff_forall_rel_of_append_cons_cons.mp follows split
      exact starts.start_eq (long split)
    exact (offsets_increase follow).1

/-- After any calls descriptors are numbered from three. -/
theorem enumerated_stateAfter (input : Bytes) (history : List Call) :
    (stateAfter Call.perform history (withInput input)).Enumerated :=
  stateAfter_keeps (fun call host enumerated => enumerated.effect (effect_perform host call))
    history (enumerated_withInput input)

theorem descriptor_of_openFile {path : String} {flags : OpenFlags}
    (answered : openFile path flags host = .ok number after) :
    after.descriptors[number]? = some (opened path flags) := by
  unfold openFile at answered
  split at answered
  · cases answered
  · injection answered with same state
    rw [← same, ← state]
    exact (Table.getElem?_insert ..).trans (if_pos rfl)

/-- **What a descriptor delivers that was opened for reading only**, whatever was called before it
was opened and whatever is called afterwards, on this and on other descriptors. -/
theorem deliveries_in_line (input : Bytes) (history later : List Call) (path : String)
    (flags : OpenFlags) {number : Nat} {host : BufferHost}
    (answered : openFile path flags (stateAfter Call.perform history (withInput input)) =
      .ok number host) (readOnly : flags.writes = false) :
    Advances (deliveries number later host) := by
  have enumerated : host.Enumerated := by
    have effect := effect_openFile (stateAfter Call.perform history (withInput input)) path flags
    rw [answered] at effect
    exact (enumerated_stateAfter input history).effect effect
  exact (inLine_deliveries enumerated (descriptor_of_openFile answered) readOnly later).advances

/-- A file that was read is emptied and written anew, and is read again after each of the two. -/
def rewritten : List Call :=
  [.read 3 3, .openFile "f" (.ofNumber 513), .read 3 3, .write 4 [4, 5, 6], .read 3 3]

/-- The promises hold for a reader of a file that is rewritten. -/
theorem reader_of_rewritten :
    let before := stateAfter Call.perform [.addFile "f" [1, 2, 3]] (withInput [])
    ∃ host, openFile "f" (.ofNumber 0) before = .ok 3 host ∧
      (OpenFlags.ofNumber 0).writes = false ∧ Advances (deliveries 3 rewritten host) ∧
      deliveries 3 rewritten host =
        [⟨[1, 2, 3], 0, [1, 2, 3]⟩, ⟨[], 0, []⟩, ⟨[4, 5, 6], 0, [4, 5, 6]⟩] := by
  refine ⟨_, rfl, rfl, ?_, by decide +kernel⟩
  exact deliveries_in_line [] [.addFile "f" [1, 2, 3]] rewritten "f" (.ofNumber 0) rfl rfl

/-- **An offset can be delivered twice**: the reader of a file that is rewritten gets the first
three bytes of the old file and then the first three of the new one. -/
theorem offset_delivered_twice :
    let before := stateAfter Call.perform [.addFile "f" [1, 2, 3]] (withInput [])
    ∃ host, openFile "f" (.ofNumber 0) before = .ok 3 host ∧
      (OpenFlags.ofNumber 0).writes = false ∧
      (deliveries 3 rewritten host).flatMap Delivery.offsets = [0, 1, 2, 0, 1, 2] ∧
      ¬((deliveries 3 rewritten host).flatMap Delivery.offsets).Nodup := by
  refine ⟨_, rfl, rfl, by decide +kernel, by decide +kernel⟩

end NestedMachine.BufferHost
