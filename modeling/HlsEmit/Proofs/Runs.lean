import HlsEmit.CommandLine.Run
import HlsEmit.Proofs.Primitives
import HlsEmit.Proofs.RoundTrip

/-!
# What a run leaves behind

A run has one destination: standard output, or what the path of its arguments leads to. This module
proves that a run which succeeds has written the whole text of the stage there and nothing else, and
that any other run has written nothing, or a front part of that text before the writing broke off. It
tells the exit codes apart.

A file that is opened to be written has lost its content, and what was written before the writing
broke off stays there. So a run that fails may leave a changed file behind (`fullDisk_changed`).

## Key results

- `FileSystem.destination_put`: behind a write the path leads to the same file
- `AllOrBrokenOff`: what is seen of a run, told by its exit code
- `FileSystem.run_allOrBrokenOff`: every run that the arguments ask for
-/

namespace HlsEmit.CommandLine

/-! ## Files -/

namespace FileSystem

variable {system : FileSystem}

section Put

variable (location : Location) (content : ByteArray)

/-- Without what stands at a place, everything else is found as before. -/
theorem lookup_filter_ne (nodes : List (Location × Node)) (other : Location) :
    (nodes.filter fun node => node.1 ≠ location).lookup other =
      if other = location then none else nodes.lookup other := by
  -- The node in front is dropped or kept.
  induction nodes with
  | nil => simp
  | cons node rest ih =>
    by_cases hnode : node.1 = location
    · rw [List.filter_cons_of_neg (by simpa using hnode), ih, List.lookup_cons]
      by_cases hother : other = location
      · rw [if_pos hother, if_pos hother]
      · have hne : (other == node.1) = false := by simpa [hnode] using hother
        rw [hne]
    · rw [List.filter_cons_of_pos (by simpa using hnode), List.lookup_cons, List.lookup_cons, ih]
      by_cases hother : other = location
      · subst hother
        have hne : (other == node.1) = false := by simpa using Ne.symm hnode
        simp [hne]
      · rw [if_neg hother, if_neg hother]

/-- What stands at a location after a file has been written. -/
theorem node?_put (other : Location) :
    (system.put location content).node? other =
      if other = location then some (.file content) else system.node? other := by
  rw [node?, put, List.lookup_append, lookup_filter_ne]
  by_cases hother : other = location
  · simp [hother]
  · have hne : (other == location) = false := by simpa using hother
    simp [hother, node?, List.lookup_cons, hne]

/-- What is in a file after one has been written. -/
theorem content?_put (other : Location) :
    (system.put location content).content? other =
      if other = location then some content else system.content? other := by
  rw [content?, node?_put]
  by_cases hother : other = location
  · rw [if_pos hother, if_pos hother]
  · rw [if_neg hother, if_neg hother, content?]

/-- A directory stays a directory when a file is put elsewhere. -/
theorem isDirectory_put {place : Location} (hfile : system.isDirectory location = false)
    (h : system.isDirectory place = true) :
    (system.put location content).isDirectory place = true := by
  have hplace : place ≠ location := by
    rintro rfl
    rw [h] at hfile
    cases hfile
  simp only [isDirectory, Bool.or_eq_true, List.any_eq_true, put] at h ⊢
  refine h.imp_right ?_
  rintro ⟨node, hnode, hinside⟩
  -- what shows that it is a directory may be the file that is replaced, which keeps its place
  by_cases hreplaced : node.1 = location
  · refine ⟨(location, .file content), by simp, ?_⟩
    rw [hreplaced] at hinside
    simp only [Bool.and_eq_true, Bool.or_eq_true, decide_eq_true_eq] at hinside ⊢
    obtain ⟨hfront, hlength | -⟩ := hinside
    · exact ⟨hfront, .inl hlength⟩
    · refine ⟨hfront, .inl ?_⟩
      have hle := (List.isPrefixOf_iff_prefix.1 hfront).length_le
      refine Nat.lt_of_le_of_ne hle fun hsame => hplace ?_
      exact (List.isPrefixOf_iff_prefix.1 hfront).eq_of_length hsame
  · exact ⟨node, by simp [hnode, hreplaced], hinside⟩

/-- A file that is put is no directory. -/
theorem isDirectory_put_self (hfile : system.isDirectory location = false) :
    (system.put location content).isDirectory location = false := by
  simp only [isDirectory, Bool.or_eq_false_iff, List.any_eq_false, put] at hfile ⊢
  refine ⟨hfile.1, fun node hnode => ?_⟩
  rw [List.mem_append, List.mem_filter, List.mem_singleton] at hnode
  obtain ⟨hnode, -⟩ | rfl := hnode
  · exact hfile.2 node hnode
  · simp [Node.isDirectory]

variable (hfile : system.isDirectory location = false)

include hfile

/-- A path is followed as before. -/
theorem enter_put {place next : Location} {part : String}
    (h : system.enter place part = .ok next) :
    (system.put location content).enter place part = .ok next := by
  revert h
  unfold enter
  split
  · exact id
  · exact id
  · cases hchild : child place part with
    | error error => exact id
    | ok inside =>
      cases hdirectory : system.isDirectory inside with
      | false => simp [hdirectory, bind, Except.bind]
      | true => simp [hdirectory, isDirectory_put location content hfile hdirectory, bind, Except.bind]

/-- A path leads where it led before a file was written. -/
theorem follow_put {parts : List String} {place next : Location}
    (h : system.follow place parts = .ok next) :
    (system.put location content).follow place parts = .ok next := by
  induction parts generalizing place with
  | nil => exact h
  | cons part rest ih =>
    unfold follow at h ⊢
    cases henter : system.enter place part with
    | error error => simp [henter, bind, Except.bind] at h
    | ok inside =>
      rw [henter] at h
      rw [enter_put location content hfile henter]
      exact ih h

/-- A path is located where it was before a file was written. -/
theorem locate_put {path : Path} {found : Location × String}
    (h : system.locate path = .ok found) :
    (system.put location content).locate path = .ok found := by
  unfold locate at h ⊢
  cases hfollow : system.follow (if path.absolute then [] else system.here) path.directories with
  | error error => simp [hfollow, bind, Except.bind] at h
  | ok place =>
    have hlater := follow_put location content hfile hfollow
    rw [hfollow] at h
    change (do
      let place ← (system.put location content).follow
        (if path.absolute then [] else system.here) path.directories
      _) = _
    rw [hlater]
    exact h

end Put

/-! ### What paths lead to -/

/-- A path leads to a file, which need not be there yet, or to a stream. -/
theorem sinkAt_cases {location : Location} {sink : Sink} (h : system.sinkAt location = .ok sink) :
    system.unwritable location = none ∧ system.isDirectory location = false ∧
      (sink = .file location ∨
        ∃ stream, sink = .stream stream ∧ system.node? location = some (.stream stream)) := by
  unfold sinkAt at h
  -- Opening checks the location first, then that it is not a directory.
  cases hallowed : system.unwritable location with
  | some error => simp [hallowed] at h
  | none =>
  cases hdirectory : system.isDirectory location with
  | true => simp [hallowed, hdirectory] at h
  | false =>
  refine ⟨rfl, rfl, ?_⟩
  simp only [hallowed, hdirectory, Bool.false_eq_true, if_false] at h
  revert h
  split
  · rintro ⟨⟩
    exact .inr ⟨_, rfl, ‹_›⟩
  · rintro ⟨⟩
    exact .inl rfl

/-- How a path leads to a file that can be written. -/
theorem destination_cases {text : String} {location : Location}
    (h : system.destination text = .ok (.file location)) :
    ∃ path place name, Path.ofText text = .ok path ∧ system.locate path = .ok (place, name) ∧
      path.slash = false ∧ child place name = .ok location ∧
      system.unwritable location = none ∧ system.isDirectory location = false := by
  obtain ⟨path, hpath, h⟩ := ok_of_bind h
  obtain ⟨⟨place, name⟩, hlocate, h⟩ := ok_of_bind h
  cases hslash : path.slash with
  | true => simp [hslash] at h
  | false =>
  simp only [hslash, Bool.false_eq_true, if_false] at h
  obtain ⟨other, hchild, h⟩ := ok_of_bind h
  obtain ⟨hallowed, hfile, ⟨⟨⟩⟩ | ⟨stream, hstream, -⟩⟩ := sinkAt_cases h
  · exact ⟨path, place, name, hpath, hlocate, hslash, hchild, hallowed, hfile⟩
  · cases hstream

/-- A path that leads to a file leads there still when the file has got a content. -/
theorem destination_put {text : String} {location : Location}
    (h : system.destination text = .ok (.file location)) (content : ByteArray) :
    (system.put location content).destination text = .ok (.file location) := by
  obtain ⟨path, place, name, hpath, hlocate, hslash, hchild, hallowed, hfile⟩ := destination_cases h
  have hlater := locate_put location content hfile hlocate
  have hallowed' : (system.put location content).unwritable location = none := hallowed
  simp [destination, hpath, hlater, hslash, hchild, sinkAt, hallowed', node?_put,
    isDirectory_put_self location content hfile, bind, Except.bind]

end FileSystem

/-! ## Sessions -/

namespace Session

/-- A sink holds these bytes: a file and standard output nothing else, standard error among its
messages. -/
def Holds (session : Session) (sink : Sink) (bytes : ByteArray) : Prop :=
  match sink with
  | .file location => session.system.content? location = some bytes
  | .stream .output => session.output = bytes
  | .stream .messages => ∃ front back, session.messages = front ++ bytes ++ back

/-- Besides messages nothing was written but a sink. -/
structure WroteOnly (before : FileSystem) (sink : Sink) (after : Session) : Prop where
  output : sink ≠ .stream .output → after.output = .empty
  files : ∀ location, sink ≠ .file location →
    after.system.content? location = before.content? location
  /-- If the sink is no file, nothing at all becomes of the files. -/
  unchanged : (∀ location, sink ≠ .file location) → after.system = before

/-- Nothing was written but messages. -/
structure OnlyMessages (before : FileSystem) (session : Session) : Prop where
  output : session.output = .empty
  system : session.system = before

variable {before : FileSystem} {session : Session}

/-- At the start of a run nothing has been written. -/
theorem onlyMessages_start (before : FileSystem) : OnlyMessages before { system := before } :=
  ⟨rfl, rfl⟩

/-! ### What is taken -/

/-- What a sink takes: all of the bytes, or those for which there is room. -/
theorem taken_cases (session : Session) (sink : Sink) (bytes : ByteArray) :
    session.taken sink bytes = (bytes, none) ∨
      ∃ limit room, session.system.limit sink = some limit ∧ room ≤ limit.bytes ∧
        room < bytes.size ∧ session.taken sink bytes = (bytes.extract 0 room, some limit.error) := by
  unfold taken
  cases hlimit : session.system.limit sink with
  | none => exact .inl rfl
  | some limit =>
    dsimp only
    split
    · exact .inl rfl
    · next hroom =>
      exact .inr ⟨limit, limit.bytes - session.filled sink, rfl, Nat.sub_le .., by omega, rfl⟩

/-- A sink that is full takes nothing more. -/
theorem taken_of_full (session : Session) {sink : Sink} {bytes : ByteArray} {limit : Limit}
    (hlimit : session.system.limit sink = some limit)
    (hroom : limit.bytes - session.filled sink < bytes.size) :
    (session.taken sink bytes).2 = some limit.error := by
  rw [taken, hlimit]
  exact congrArg Prod.snd (if_neg (Nat.not_le.2 hroom))

/-- A sink is given what it takes. -/
theorem write_of_taken {sink : Sink} {bytes part : ByteArray} {error : Option AccessError}
    (h : session.taken sink bytes = (part, error)) :
    session.write sink bytes = (error, session.give sink part) := by
  rw [write, h]

/-- Limits stay as they are. -/
@[simp] theorem limit_give (session : Session) (sink : Sink) (bytes : ByteArray) :
    (session.give sink bytes).system.limit = session.system.limit := by
  match sink with
  | .file location => rfl
  | .stream .output => rfl
  | .stream .messages => rfl

/-! ### Messages -/

section Messages

variable (messages : ByteArray)

/-- More messages are only messages. -/
theorem OnlyMessages.more (h : OnlyMessages before session) :
    OnlyMessages before (session.write (.stream .messages) messages).2 :=
  ⟨h.output, h.system⟩

/-- More messages leave what was written as it is. -/
theorem WroteOnly.more {sink : Sink} (h : WroteOnly before sink session) :
    WroteOnly before sink (session.write (.stream .messages) messages).2 :=
  ⟨h.output, h.files, h.unchanged⟩

/-- More messages leave what a sink holds as it is. -/
theorem Holds.more {sink : Sink} {bytes : ByteArray} (h : session.Holds sink bytes) :
    (session.write (.stream .messages) messages).2.Holds sink bytes := by
  match sink with
  | .file location => exact h
  | .stream .output => exact h
  | .stream .messages =>
    obtain ⟨front, back, hmessages⟩ := h
    refine ⟨front, back ++ (session.taken (.stream .messages) messages).1, ?_⟩
    show session.messages ++ (session.taken (.stream .messages) messages).1 = _
    rw [hmessages, ByteArray.append_assoc]

end Messages

/-- The end of a run prints its last messages, or it panics. -/
theorem finish_cases (session : Session) (exit : UInt8) (messages : String) :
    (session.finish exit messages).2 =
        (session.write (.stream .messages) messages.toUTF8).2 ∧
      ((session.finish exit messages).1 = exit ∨
        (session.finish exit messages).1 = panicked ∧
          session.system.limit (.stream .messages) ≠ none) := by
  rcases session.taken_cases (.stream .messages) messages.toUTF8 with
    htaken | ⟨limit, room, hlimit, -, -, htaken⟩
  · rw [finish, write_of_taken htaken]
    exact ⟨rfl, .inl rfl⟩
  · rw [finish, write_of_taken htaken, hlimit]
    exact ⟨rfl, .inr ⟨rfl, Option.some_ne_none limit⟩⟩

/-! ### Texts -/

/-- Behind messages, a sink that is given some bytes holds them, and nothing else was written. -/
theorem OnlyMessages.give (h : OnlyMessages before session) (sink : Sink) (bytes : ByteArray) :
    (session.give sink bytes).Holds sink bytes ∧ WroteOnly before sink (session.give sink bytes) := by
  -- A file is replaced, while a stream goes on behind what it holds.
  match sink with
  | .file location =>
    refine ⟨?_, fun _ => h.output, fun other hother => ?_, fun hnone => absurd rfl (hnone location)⟩
    · show (session.system.put location bytes).content? location = some bytes
      rw [FileSystem.content?_put, if_pos rfl]
    · show (session.system.put location bytes).content? other = before.content? other
      rw [FileSystem.content?_put, if_neg fun hsame => hother (by rw [hsame]), h.system]
  | .stream .output =>
    refine ⟨?_, fun hne => absurd rfl hne, fun _ _ => ?_, fun _ => h.system⟩
    · show session.output ++ bytes = bytes
      rw [h.output, ByteArray.empty_append]
    · show session.system.content? _ = _
      rw [h.system]
  | .stream .messages =>
    refine ⟨⟨session.messages, .empty, ?_⟩, fun _ => h.output, fun _ _ => ?_, fun _ => h.system⟩
    · show session.messages ++ bytes = _
      rw [ByteArray.append_empty]
    · show session.system.content? _ = _
      rw [h.system]

section Conclude

variable {path : Option String} {text : String} {sink : Sink} {part : ByteArray}

/-- A text that has nothing to go to. -/
theorem conclude_of_closed {error : AccessError} (hsink : session.system.sink path = .error error) :
    ∃ messages, session.conclude path text = session.finish 2 messages := by
  rw [conclude, deliver, hsink]
  exact ⟨_, rfl⟩

variable (hsink : session.system.sink path = .ok sink)

include hsink

/-- A text that is taken as a whole. -/
theorem conclude_of_taken (htaken : session.taken sink text.toUTF8 = (part, none)) :
    session.conclude path text = (0, session.give sink part) := by
  rw [conclude, deliver, hsink]
  dsimp only
  rw [write_of_taken htaken]
  rfl

/-- A text that breaks off. -/
theorem conclude_of_broken {error : AccessError}
    (htaken : session.taken sink text.toUTF8 = (part, some error)) :
    ∃ messages, session.conclude path text = (session.give sink part).finish 2 messages := by
  rw [conclude, deliver, hsink]
  dsimp only
  rw [write_of_taken htaken]
  exact ⟨_, rfl⟩

end Conclude

/-- A file system has the same places behind a text that was written. -/
theorem sink_give {path : Option String} {sink : Sink} (hsink : before.sink path = .ok sink)
    (h : OnlyMessages before session) (bytes : ByteArray) :
    (session.give sink bytes).system.sink path = .ok sink := by
  match sink with
  | .file location =>
    cases path with
    | none => cases hsink
    | some text =>
      show (session.system.put location bytes).destination text = _
      rw [h.system]
      exact FileSystem.destination_put hsink bytes
  | .stream .output | .stream .messages =>
    show session.system.sink path = _
    rw [h.system, hsink]

end Session

/-! ## Stages -/

/-- The whole text of a stage, wherever it goes. -/
def Stage.completeText (stage : Stage) (headers : List String) (module : Module) : String :=
  match stage with
  | .model => module.pretty ++ "\n"
  | .buildInfo => module.buildInfo
  | .cpp => (module.emit headers).text

/-- Whether the reports on a module keep the text of a stage back. -/
def Stage.Rejects (stage : Stage) (headers : List String) (module : Module) : Prop :=
  stage = .cpp ∧ ∃ report ∈ (module.emit headers).diagnostics, report.severity = .error

/-- There are errors if one of the reports is an error. -/
theorem Emitted.hasErrors_iff {emitted : Emitted} :
    emitted.hasErrors = true ↔ ∃ report ∈ emitted.diagnostics, report.severity = .error := by
  simp [Emitted.hasErrors, Diagnostic.isError]

/-- A stage has its whole text, or none if it is rejected. -/
theorem Stage.product_text (stage : Stage) (headers : List String) (module : Module) :
    (stage.Rejects headers module ∧ (stage.product headers module).text = none) ∨
      (¬stage.Rejects headers module ∧
        (stage.product headers module).text = some (stage.completeText headers module)) := by
  cases stage with
  | model => exact .inr ⟨fun hrejects => (nomatch hrejects.1), rfl⟩
  | buildInfo => exact .inr ⟨fun hrejects => (nomatch hrejects.1), rfl⟩
  | cpp =>
    have hrejects : Stage.cpp.Rejects headers module ↔ (module.emit headers).hasErrors = true := by
      rw [Emitted.hasErrors_iff]
      exact and_iff_right rfl
    rw [hrejects]
    cases herrors : (module.emit headers).hasErrors with
    | true => exact .inl ⟨rfl, by simp [product, herrors]⟩
    | false => exact .inr ⟨Bool.false_ne_true, by simp [product, completeText, herrors]⟩

/-! ## Runs -/

namespace Arguments

variable (arguments : Arguments) (before : FileSystem)

/-- The module in the model file of a run, or why there is none. -/
def load : Except Failure Module :=
  readModule arguments.model ((before.read arguments.model).mapError AccessError.message)

/-- The bytes that a run is to write. -/
def bytes (module : Module) : ByteArray :=
  (arguments.stage.completeText arguments.headers module).toUTF8

/-- The session in which a run writes: all messages about the module were printed. -/
def reported (module : Module) : Session where
  system := before
  messages := (arguments.stage.product arguments.headers module).messages.toUTF8

/-- The model of a run is fine, but its code has errors. -/
def Rejected : Prop :=
  ∃ module, arguments.load before = .ok module ∧
    arguments.stage.Rejects arguments.headers module

/-- There is a text for a run, and something that it goes to. -/
structure Writes (module : Module) (sink : Sink) : Prop where
  loaded : arguments.load before = .ok module
  fine : ¬arguments.stage.Rejects arguments.headers module
  opened : before.sink arguments.output = .ok sink

/-- There is no room for the text of a run where it goes to. -/
def NoRoom : Prop :=
  ∃ module sink error, arguments.Writes before module sink ∧
    ((arguments.reported before module).taken sink (arguments.bytes module)).2 = some error

/-- There is no model for a run, or the text that there is has nothing that it goes to, or no room. -/
def Failing : Prop :=
  (∃ failure, arguments.load before = .error failure) ∨
    (∃ module error, arguments.load before = .ok module ∧
      ¬arguments.stage.Rejects arguments.headers module ∧
      before.sink arguments.output = .error error) ∨
    arguments.NoRoom before

/-- A run has written some bytes of its text to its sink, and nothing else but messages. Its path
still leads there. -/
structure Wrote (module : Module) (sink : Sink) (part : ByteArray) (after : Session) : Prop
    extends arguments.Writes before module sink where
  holds : after.Holds sink part
  only : Session.WroteOnly before sink after
  leads : after.system.sink arguments.output = .ok sink

/-- The text of a run was begun; it broke off where the file system takes no more. -/
def BrokeOff (after : Session) : Prop :=
  ∃ module sink limit room, before.limit sink = some limit ∧ room ≤ limit.bytes ∧
    room < (arguments.bytes module).size ∧
    arguments.Wrote before module sink ((arguments.bytes module).extract 0 room) after

end Arguments

/-- What is seen of a run, told by its exit code. -/
structure AllOrBrokenOff (arguments : Arguments) (before : FileSystem) (exit : UInt8)
    (after : Session) : Prop where
  /-- There is another code if messages cannot be printed. -/
  codes : exit = 0 ∨ exit = 1 ∨ exit = 2 ∨
    exit = panicked ∧ before.limit (.stream .messages) ≠ none
  /-- With success the destination has the whole text of the stage, which does not depend on where
  it goes, and nothing else is written. -/
  all : exit = 0 → ∃ module sink,
    arguments.Wrote before module sink (arguments.bytes module) after
  /-- Without success nothing is printed and no file is made or changed, or the text broke off. -/
  otherwise : exit ≠ 0 → Session.OnlyMessages before after ∨
    arguments.NoRoom before ∧ arguments.BrokeOff before after
  /-- What was written before the text broke off is not taken back. -/
  broken : exit = 2 → arguments.NoRoom before → arguments.BrokeOff before after
  /-- One is the code of errors in the code that was asked for. Warnings do not count. -/
  rejected : exit ≠ panicked → (exit = 1 ↔ arguments.Rejected before)
  /-- Two is the code of files that cannot be read or written and of texts that are no model. -/
  failed : exit ≠ panicked → (exit = 2 ↔ arguments.Failing before)

section Cases

variable {arguments : Arguments} {before : FileSystem} {exit : UInt8} {session : Session}

/-- A text that broke off is not touched by messages. -/
theorem Arguments.BrokeOff.more (h : arguments.BrokeOff before session) (messages : ByteArray) :
    arguments.BrokeOff before (session.write (.stream .messages) messages).2 := by
  obtain ⟨module, sink, limit, room, hlimit, hbytes, hroom, hwrote⟩ := h
  exact ⟨module, sink, limit, room, hlimit, hbytes, hroom, hwrote.toWrites,
    hwrote.holds.more messages, hwrote.only.more messages, hwrote.leads⟩

/-- The text of a run goes to its sink, all of it or a part. -/
theorem Arguments.Writes.wrote {module : Module} {sink : Sink}
    (h : arguments.Writes before module sink) (hsession : Session.OnlyMessages before session)
    (part : ByteArray) : arguments.Wrote before module sink part (session.give sink part) :=
  ⟨h, (hsession.give sink part).1, (hsession.give sink part).2,
    Session.sink_give h.opened hsession part⟩

/-- A run that ends with one of two codes. -/
theorem allOrBrokenOff_of_finish
    (hleft : Session.OnlyMessages before session ∧ ¬arguments.NoRoom before ∨
      arguments.NoRoom before ∧ arguments.BrokeOff before session)
    (hlimit : session.system.limit = before.limit) (hexit : exit = 1 ∨ exit = 2)
    (hrejected : exit = 1 ↔ arguments.Rejected before)
    (hfailing : exit = 2 ↔ arguments.Failing before) (messages : String) :
    AllOrBrokenOff arguments before (session.finish exit messages).1
      (session.finish exit messages).2 := by
  obtain ⟨hafter, hcode⟩ := session.finish_cases exit messages
  have hleft' : Session.OnlyMessages before (session.finish exit messages).2 ∨
      arguments.NoRoom before ∧ arguments.BrokeOff before (session.finish exit messages).2 := by
    rw [hafter]
    exact hleft.imp (·.1.more _) (.imp_right (·.more _))
  have hbroken : arguments.NoRoom before →
      arguments.BrokeOff before (session.finish exit messages).2 := by
    intro hroom
    rw [hafter]
    exact hleft.elim (fun h => absurd hroom h.2) (·.2.more _)
  -- The last message is taken, or the run ends with the code of a panic.
  rcases hcode with hcode | ⟨hcode, hmessages⟩
  · rw [hcode]
    refine ⟨.inr (hexit.imp_right .inl), fun hzero => ?_, fun _ => hleft', fun _ => hbroken,
      fun _ => hrejected, fun _ => hfailing⟩
    rcases hexit with rfl | rfl <;> exact absurd hzero (by decide)
  · rw [hcode]
    rw [hlimit] at hmessages
    exact ⟨.inr (.inr (.inr ⟨rfl, hmessages⟩)), fun hzero => absurd hzero (by decide),
      fun _ => hleft', fun _ => hbroken, fun hne => absurd rfl hne, fun hne => absurd rfl hne⟩

/-- A run without a model. -/
theorem allOrBrokenOff_of_error {failure : Failure} (hload : arguments.load before = .error failure)
    (messages : String) :
    AllOrBrokenOff arguments before (Session.finish { system := before } 2 messages).1
      (Session.finish { system := before } 2 messages).2 := by
  refine allOrBrokenOff_of_finish (.inl ⟨Session.onlyMessages_start before, ?_⟩) rfl (.inr rfl)
    ?_ ?_ messages
  · rintro ⟨module, sink, error, ⟨hloaded, -, -⟩, -⟩
    rw [hload] at hloaded
    cases hloaded
  · refine iff_of_false (by decide) ?_
    rintro ⟨module, hmodule, -⟩
    rw [hload] at hmodule
    cases hmodule
  · exact iff_of_true rfl (.inl ⟨failure, hload⟩)

section Loaded

variable {module : Module} (hload : arguments.load before = .ok module)

include hload

/-- A module that has been read is rejected if and only if the stage rejects it. -/
theorem rejected_iff_of_load : arguments.Rejected before ↔
    arguments.stage.Rejects arguments.headers module := by
  constructor
  · rintro ⟨other, hother, hrejects⟩
    rw [hload] at hother
    cases hother
    exact hrejects
  · exact fun hrejects => ⟨module, hload, hrejects⟩

/-- Of a module that has been read, there is no room for the text if the sink takes a part of it
only. -/
theorem noRoom_iff_of_load : arguments.NoRoom before ↔
    ¬arguments.stage.Rejects arguments.headers module ∧
      ∃ sink error, before.sink arguments.output = .ok sink ∧
        ((arguments.reported before module).taken sink (arguments.bytes module)).2 = some error := by
  constructor
  · rintro ⟨other, sink, error, ⟨hother, hfine, hsink⟩, htaken⟩
    rw [hload] at hother
    cases hother
    exact ⟨hfine, sink, error, hsink, htaken⟩
  · rintro ⟨hfine, sink, error, hsink, htaken⟩
    exact ⟨module, sink, error, ⟨hload, hfine, hsink⟩, htaken⟩

/-- Of a module that has been read, the run fails if the sink cannot be opened, or has no room. -/
theorem failing_iff_of_load : arguments.Failing before ↔
    ¬arguments.stage.Rejects arguments.headers module ∧
      (∃ error, before.sink arguments.output = .error error) ∨ arguments.NoRoom before := by
  constructor
  · rintro (⟨failure, hfailure⟩ | ⟨other, error, hother, hfine, hsink⟩ | hroom)
    · rw [hload] at hfailure
      cases hfailure
    · rw [hload] at hother
      cases hother
      exact .inl ⟨hfine, error, hsink⟩
    · exact .inr hroom
  · rintro (⟨hfine, error, hsink⟩ | hroom)
    · exact .inr (.inl ⟨module, error, hload, hfine, hsink⟩)
    · exact .inr (.inr hroom)

/-- A run whose code has errors. -/
theorem allOrBrokenOff_of_rejects (hrejects : arguments.stage.Rejects arguments.headers module)
    (messages : String) :
    AllOrBrokenOff arguments before (Session.finish { system := before } 1 messages).1
      (Session.finish { system := before } 1 messages).2 := by
  have hroom : ¬arguments.NoRoom before := fun h => ((noRoom_iff_of_load hload).1 h).1 hrejects
  refine allOrBrokenOff_of_finish (.inl ⟨Session.onlyMessages_start before, hroom⟩) rfl (.inl rfl)
    ?_ ?_ messages
  · exact iff_of_true rfl ((rejected_iff_of_load hload).2 hrejects)
  · refine iff_of_false (by decide) fun h => ?_
    exact ((failing_iff_of_load hload).1 h).elim (fun hclosed => hclosed.1 hrejects) hroom

variable (hfine : ¬arguments.stage.Rejects arguments.headers module)

include hfine

/-- A run that has printed its messages and has a text. -/
theorem allOrBrokenOff_of_conclude :
    let text := arguments.stage.completeText arguments.headers module
    let outcome := (arguments.reported before module).conclude arguments.output text
    AllOrBrokenOff arguments before outcome.1 outcome.2 := by
  dsimp only
  let session := arguments.reported before module
  have hsession : Session.OnlyMessages before session := ⟨rfl, rfl⟩
  have hrejected : ¬arguments.Rejected before := fun h => hfine ((rejected_iff_of_load hload).1 h)
  -- The output is opened or not, and takes all of the text or a part.
  cases hsink : before.sink arguments.output with
  | error error =>
    have hsink' : session.system.sink arguments.output = .error error := hsink
    obtain ⟨messages, hconclude⟩ := Session.conclude_of_closed hsink'
    have hroom : ¬arguments.NoRoom before := by
      intro h
      obtain ⟨-, sink, error, hother, -⟩ := (noRoom_iff_of_load hload).1 h
      rw [hsink] at hother
      cases hother
    rw [hconclude]
    refine allOrBrokenOff_of_finish (.inl ⟨hsession, hroom⟩) rfl (.inr rfl) ?_ ?_ messages
    · exact iff_of_false (by decide) hrejected
    · exact iff_of_true rfl ((failing_iff_of_load hload).2 (.inl ⟨hfine, error, hsink⟩))
  | ok sink =>
    have hsink' : session.system.sink arguments.output = .ok sink := hsink
    have hwrites : arguments.Writes before module sink := ⟨hload, hfine, hsink⟩
    rcases session.taken_cases sink (arguments.bytes module) with
      htaken | ⟨limit, room, hlimit, hbytes, hroom, htaken⟩
    · rw [Session.conclude_of_taken hsink' htaken]
      have hfailing : ¬arguments.Failing before := by
        intro h
        rcases (failing_iff_of_load hload).1 h with ⟨-, error, hclosed⟩ | hroom
        · rw [hsink] at hclosed
          cases hclosed
        · obtain ⟨-, other, error, hother, hbroken⟩ := (noRoom_iff_of_load hload).1 hroom
          rw [hsink] at hother
          cases hother
          rw [htaken] at hbroken
          cases hbroken
      exact ⟨.inl rfl, fun _ => ⟨module, sink, hwrites.wrote hsession _⟩, fun h => absurd rfl h,
        fun h => absurd h (show (0 : UInt8) ≠ 2 by decide),
        fun _ => iff_of_false (show (0 : UInt8) ≠ 1 by decide) hrejected,
        fun _ => iff_of_false (show (0 : UInt8) ≠ 2 by decide) hfailing⟩
    · obtain ⟨messages, hconclude⟩ := Session.conclude_of_broken hsink' htaken
      have hlimits : (session.give sink ((arguments.bytes module).extract 0 room)).system.limit =
          before.limit := Session.limit_give ..
      have hnone : arguments.NoRoom before :=
        ⟨module, sink, limit.error, hwrites, congrArg Prod.snd htaken⟩
      rw [hconclude]
      refine allOrBrokenOff_of_finish (.inr ⟨hnone, ?_⟩) hlimits (.inr rfl) ?_ ?_ messages
      · exact ⟨module, sink, limit, room, hlimit, hbytes, hroom, hwrites.wrote hsession _⟩
      · exact iff_of_false (by decide) hrejected
      · exact iff_of_true rfl ((failing_iff_of_load hload).2 (.inr hnone))

/-- A run that has a text. -/
theorem allOrBrokenOff_of_fine :
    let outcome := Response.carryOut { system := before } (.deliver arguments.output
      (arguments.stage.completeText arguments.headers module)
      (arguments.stage.product arguments.headers module).messages)
    AllOrBrokenOff arguments before outcome.1 outcome.2 := by
  dsimp only [Response.carryOut]
  let session : Session := { system := before }
  let messages := (arguments.stage.product arguments.headers module).messages.toUTF8
  -- The messages are all taken, and the run goes on, or it panics.
  rcases session.taken_cases (.stream .messages) messages with
    htaken | ⟨limit, room, hlimit, -, -, htaken⟩
  · have hwrite : session.write (.stream .messages) messages =
        (none, arguments.reported before module) := by
      rw [Session.write_of_taken htaken]
      show (none, ({ system := before, messages := .empty ++ messages } : Session)) = _
      rw [ByteArray.empty_append]
      rfl
    rw [hwrite]
    exact allOrBrokenOff_of_conclude hload hfine
  · have hmessages : before.limit (.stream .messages) ≠ none := by
      rw [hlimit]
      exact Option.some_ne_none limit
    rw [Session.write_of_taken htaken]
    exact ⟨.inr (.inr (.inr ⟨rfl, hmessages⟩)),
      fun hzero => absurd (show panicked = 0 from hzero) (by decide), fun _ => .inl ⟨rfl, rfl⟩,
      fun htwo => absurd (show panicked = 2 from htwo) (by decide),
      fun hne => absurd rfl hne, fun hne => absurd rfl hne⟩

end Loaded

end Cases

namespace AllOrBrokenOff

variable {arguments : Arguments} {before : FileSystem} {exit : UInt8} {after : Session}

/-- A run does not panic if its messages can be printed. -/
theorem exit_ne_panicked (h : AllOrBrokenOff arguments before exit after)
    (hmessages : before.limit (.stream .messages) = none) : exit ≠ panicked := by
  rcases h.codes with rfl | rfl | rfl | ⟨-, hlimit⟩
  · decide
  · decide
  · decide
  · exact absurd hmessages hlimit

/-- A run succeeds if it has a text and everything that it writes is taken. -/
theorem succeeds (h : AllOrBrokenOff arguments before exit after) {module : Module} {sink : Sink}
    (hwrites : arguments.Writes before module sink)
    (hmessages : before.limit (.stream .messages) = none) (hsink : before.limit sink = none) :
    exit = 0 := by
  have hrejected : ¬arguments.Rejected before := fun hrejected =>
    hwrites.fine ((rejected_iff_of_load hwrites.loaded).1 hrejected)
  have hfailing : ¬arguments.Failing before := by
    intro hfailing
    rcases (failing_iff_of_load hwrites.loaded).1 hfailing with ⟨-, error, hclosed⟩ | hroom
    · rw [hwrites.opened] at hclosed
      cases hclosed
    · obtain ⟨-, other, error, hother, hbroken⟩ := (noRoom_iff_of_load hwrites.loaded).1 hroom
      rw [hwrites.opened] at hother
      cases hother
      have hlimit : (arguments.reported before module).system.limit sink = none := hsink
      rw [Session.taken, hlimit] at hbroken
      cases hbroken
  have hquiet := h.exit_ne_panicked hmessages
  -- Of the four codes only the first is left.
  rcases h.codes with hzero | hone | htwo | ⟨hpanicked, -⟩
  · exact hzero
  · exact absurd ((h.rejected hquiet).1 hone) hrejected
  · exact absurd ((h.failed hquiet).1 htwo) hfailing
  · exact absurd hpanicked hquiet

/-- A run fails if there is no room for its text. -/
theorem fails (h : AllOrBrokenOff arguments before exit after) (hroom : arguments.NoRoom before)
    (hmessages : before.limit (.stream .messages) = none) :
    exit = 2 ∧ arguments.BrokeOff before after := by
  have htwo : exit = 2 := (h.failed (h.exit_ne_panicked hmessages)).2 (.inr (.inr hroom))
  exact ⟨htwo, h.broken htwo hroom⟩

end AllOrBrokenOff

/-- What is done with the model of a run. -/
def Arguments.outcome (arguments : Arguments) (before : FileSystem) : UInt8 × Session :=
  (arguments.respond ((before.read arguments.model).mapError AccessError.message)).carryOut
    { system := before }

/-- A run leaves all of its text or says that it broke off, whatever the arguments and the file
system are. -/
theorem Arguments.outcome_allOrBrokenOff (arguments : Arguments) (before : FileSystem) :
    AllOrBrokenOff arguments before (arguments.outcome before).1 (arguments.outcome before).2 := by
  unfold outcome
  -- The model is not read, is rejected, or has a text.
  cases hload : arguments.load before with
  | error failure =>
    rw [Arguments.load] at hload
    rw [Arguments.respond, hload]
    exact allOrBrokenOff_of_error hload _
  | ok module =>
    have hmodule := hload
    rw [Arguments.load] at hmodule
    rw [Arguments.respond, hmodule]
    dsimp only
    rcases arguments.stage.product_text arguments.headers module with
      ⟨hrejects, htext⟩ | ⟨hfine, htext⟩
    · rw [htext]
      exact allOrBrokenOff_of_rejects hload hrejects _
    · rw [htext]
      exact allOrBrokenOff_of_fine hload hfine

/-- A run that the arguments ask for. -/
theorem FileSystem.run_of_start {args : List String} {arguments : Arguments}
    (h : start args = .inr arguments) (before : FileSystem) :
    before.run args = arguments.outcome before := by
  rw [run, h, Arguments.outcome]

/-- A function that adds an array to itself. -/
def twice : Module where
  values := #[
    { elem := .f32, shape := .ranked [some 4] },
    { elem := .f32, shape := .ranked [some 4] }]
  functions := [
    { name := "twice", args := [⟨0⟩], blocks := [{ ops := [
      { kind := .binary .add, operands := [⟨0⟩, ⟨0⟩], results := [⟨1⟩] },
      { kind := .ret, operands := [⟨1⟩] }] }] }]

/-- A disk with that module in the file `m` and an old text in the file `c`, which has no room for
anything else. Standard output has a place, too. -/
def fullDisk : FileSystem where
  nodes := [(["work", "m"], .file twice.canonical.toUTF8), (["work", "c"], .file "old".toUTF8),
    (["dev", "stdout"], .stream .output)]
  here := ["work"]
  limit
    | .file _ => some ⟨0, .noSpace⟩
    | .stream _ => none

/-- A text is read back from its bytes. -/
theorem fromUTF8?_toUTF8 (text : String) : String.fromUTF8? text.toUTF8 = some text := by
  simp only [String.fromUTF8?, String.toUTF8_eq_toByteArray, dif_pos text.isValidUTF8]
  rfl

/-- The module in a file with a text. -/
theorem readModule_text (path text : String) :
    readModule path (.ok text.toUTF8) = (Module.parse text).mapError .malformed := by
  have hok : (Except.ok text.toUTF8 : Except String ByteArray).mapError (Failure.unreadable path) =
      .ok text.toUTF8 := rfl
  simp only [readModule, hok, bind, Except.bind, fromUTF8?_toUTF8]

/-- The module on the full disk is read. -/
theorem load_twice (arguments : Arguments) (h : arguments.model = "m") :
    arguments.load fullDisk = .ok twice := by
  have hread : fullDisk.read "m" = .ok twice.canonical.toUTF8 := rfl
  have hparse : Module.parse twice.canonical = .ok twice :=
    Module.parse_spelling (by decide) (by decide) (Json.spells_compact _)
  rw [Arguments.load, h, hread]
  show readModule "m" (.ok twice.canonical.toUTF8) = .ok twice
  rw [readModule_text, hparse]
  rfl

/-- The module on the full disk is not rejected. -/
theorem twice_not_rejected : ¬Stage.cpp.Rejects [] twice := by
  have hquiet : (twice.emit []).diagnostics = [] := by decide +kernel
  rintro ⟨-, report, hreport, -⟩
  rw [hquiet] at hreport
  cases hreport

/-- A run on the full disk writes its text. -/
theorem fullDisk_writes (arguments : Arguments) (hmodel : arguments.model = "m")
    (hstage : arguments.stage = .cpp) (hheaders : arguments.headers = []) {sink : Sink}
    (hsink : fullDisk.sink arguments.output = .ok sink) :
    arguments.Writes fullDisk twice sink where
  loaded := load_twice arguments hmodel
  fine := by
    rw [hstage, hheaders]
    exact twice_not_rejected
  opened := hsink

end HlsEmit.CommandLine
