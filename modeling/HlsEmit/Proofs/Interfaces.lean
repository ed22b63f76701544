import HlsEmit.Proofs.Placement
import HlsEmit.Proofs.Layout.Mentions
import HlsEmit.Proofs.Reading.Words

/-!
# The first lines of a function body

Behind the signature, a function says how it is scheduled, and the top function also how its ports are
connected. A scalar port is connected through the control bus, an array by the memory that it is placed
in, and an array without a place is not connected at all. Then the arrays on the chip are placed.

The lines name a port as the code does, only without the star of a pointer.

## Key results

- `Arena.portText_use`: how a port is spelled
- `Emission.functionPragmas_lines`: the lines for any list of ports
- `Emission.interfaces_match_ports`: these lines at the head of a function body
-/

namespace HlsEmit

open Code

/-! ## How ports are spelled -/

/-- A text without the stars at its start. -/
def unstarred (text : String) : String :=
  String.ofList (text.toList.dropWhile (· = '*'))

/-- What stands for a port in code, without the star of a pointer. -/
def Arena.portName (arena : Arena) (t : NameTable) (id : ValueId) : String :=
  unstarred (arena.designator t id).text

/-- A text without a star in front keeps all of its characters. -/
theorem unstarred_of_head {text : String} (h : text.toList.head? ≠ some '*') :
    unstarred text = text := by
  unfold unstarred
  cases htext : text.toList with
  | nil => rw [List.dropWhile_nil, ← htext, String.ofList_toList]
  | cons c rest =>
    have hc : c ≠ '*' := by
      rintro rfl
      simp [htext] at h
    rw [List.dropWhile_cons, if_neg (by simpa using hc), ← htext, String.ofList_toList]

/-- A name without its star is its identifier. -/
theorem Name.unstarred_text (name : Name) : unstarred name.text = name.identifier := by
  have hidentifier : unstarred name.identifier = name.identifier :=
    unstarred_of_head (by simp [identifier])
  obtain ⟨number, pointer⟩ := name
  cases pointer with
  | false => exact hidentifier
  | true =>
    -- the star is dropped, and the identifier has none
    refine Eq.trans ?_ hidentifier
    simp [unstarred, text]

/-- The text of a constant does not start with a star. -/
theorem head_literal {literal : Literal} {text : String} (h : literal.scalarText? = some text) :
    text.toList.head? ≠ some '*' := by
  intro hhead
  rcases isNumberChar_literal h '*' (List.mem_of_head? hhead) with (hdigit | hsign) | hletter
  · cases hdigit
  · exact absurd hsign (by decide)
  · exact absurd hletter (by decide)

/-- Pragmas spell a port by its name. -/
theorem Arena.portText_use (arena : Arena) (t : NameTable) (id : ValueId) :
    (arena.use t id).designator.portText = arena.portName t id := by
  show (arena.designator t id).portText = unstarred (arena.designator t id).text
  rw [designator]
  split
  · next text htext =>
    obtain ⟨-, literal, -, hliteral⟩ := exists_literal htext
    exact (unstarred_of_head (head_literal hliteral)).symm
  · split
    · next name _ => exact name.unstarred_text.symm
    · rfl

/-! ## Lines -/

/-- The line that connects a port of this name. -/
inductive ValueInfo.Interface (info : ValueInfo) (name : String) : String → Prop
  | scalar : info.isShaped = false →
      Interface info name ("#pragma HLS interface s_axilite port=" ++ name ++ " bundle=ctrl")
  | external : info.isShaped = true → info.memory = .dram →
      Interface info name ("#pragma HLS interface m_axi offset=slave port=" ++ name)
  | onChip : info.isShaped = true → info.memory.isOnChip = true →
      Interface info name ("#pragma HLS interface bram port=" ++ name)

/-- Whether a port is connected: a scalar is, and an array that is placed somewhere. -/
def ValueInfo.isConnected (info : ValueInfo) : Bool :=
  !info.isShaped || info.memory ≠ .none

/-- How a function is scheduled. -/
def FuncAttrs.scheduleLines (attrs : FuncAttrs) : List String :=
  (if attrs.dataflow then ["#pragma HLS dataflow", ""] else []) ++
    if attrs.pipeline then
      ["#pragma HLS pipeline II=" ++ toString (attrs.targetInterval.getD 1).toInt, ""]
    else []

/-- Where an array is placed, with a blank line behind it. -/
def Arena.memoryLines (arena : Arena) (t : NameTable) (id : ValueId) : List String :=
  ((arena.info id).placement (arena.use t id)).map Pragma.text ++ [""]

/-- The first lines of the body of a function with these ports. -/
inductive FuncAttrs.Opening (attrs : FuncAttrs) (arena : Arena) (t : NameTable)
    (ports : List ValueId) : List String → Prop
  | inner : attrs.topFunction = false → Opening attrs arena t ports attrs.scheduleLines
  /-- The ports of the top function are connected, and behind that the arrays among them are placed. -/
  | top {interfaces : List String} : attrs.topFunction = true →
      List.Forall₂ (fun id line => (arena.info id).Interface (arena.portName t id) line)
        (ports.filter fun id => (arena.info id).isConnected) interfaces →
      Opening attrs arena t ports (attrs.scheduleLines ++
        "#pragma HLS interface s_axilite port=return bundle=ctrl" :: interfaces ++ "" ::
        (ports.filter fun id => (arena.info id).isShaped && arena.isOnChip id).flatMap
          (arena.memoryLines t))

/-- Some statements are written as these lines. -/
def Code.WrittenAs (stmts : List Stmt) (lines : List String) : Prop :=
  ∀ depth, stmtsText depth stmts = String.join (lines.map (plainLine depth))

namespace Code.WrittenAs

variable {stmts stmts' : List Stmt} {lines lines' : List String}

/-- No statement writes no line. -/
theorem nil : WrittenAs [] [] := fun _ => rfl

/-- Lines stand in the order of the statements. -/
theorem append (h : WrittenAs stmts lines) (h' : WrittenAs stmts' lines') :
    WrittenAs (stmts ++ stmts') (lines ++ lines') := by
  intro depth
  rw [stmtsText_append, h depth, h' depth, List.map_append, String.join_append]

/-- A blank statement writes an empty line. -/
theorem blank : WrittenAs [.blank] [""] := fun _ => rfl

/-- A pragma writes its line. -/
theorem pragma (pragma : Pragma) : WrittenAs [.pragma pragma] [pragma.text] := by
  have hfront {front : String} (h : front ≠ "") (back : String) : front ++ back ≠ "" := fun heq =>
    h (String.append_eq_empty_iff.1 heq).1
  have htext : pragma.text ≠ "" := by
    cases pragma with
    | dataflow | unroll | returnInterface => exact (by decide)
    | pipeline | axiInterface | bramInterface => exact hfront (by decide) _
    | scalarInterface => exact hfront (hfront (by decide) _) _
    | resource => exact hfront (hfront (hfront (by decide) _) _) _
    | partition =>
      exact hfront (hfront (hfront (hfront (hfront (hfront (by decide) _) _) _) _) _) _
  intro depth
  rw [List.map_singleton, plainLine, if_neg (by simpa using htext), String.join_cons, String.join_nil]
  rfl

/-- Pragmas write their lines in order. -/
theorem pragmas (pragmas : List Pragma) :
    WrittenAs (pragmas.map .pragma) (pragmas.map Pragma.text) := by
  induction pragmas with
  | nil => exact nil
  | cons first rest ih => exact (pragma first).append ih

end Code.WrittenAs

/-! ### Ports -/

/-- A port that is connected has one line. -/
theorem ValueInfo.interface_of_connected {info : ValueInfo} (h : info.isConnected = true) (port : Use) :
    ∃ line, WrittenAs (info.interfacePragmas port) [line] ∧
      info.Interface port.designator.portText line := by
  unfold interfacePragmas
  cases hshaped : info.isShaped with
  | false => exact ⟨_, .pragma (.scalarInterface port), .scalar hshaped⟩
  | true =>
    cases hmemory : info.memory with
    | none => simp [isConnected, hshaped, hmemory] at h
    | dram => exact ⟨_, .pragma (.axiInterface port), .external hshaped hmemory⟩
    | _ => exact ⟨_, .pragma (.bramInterface port), .onChip hshaped (by rw [hmemory]; rfl)⟩

/-- A port that is not connected has none. -/
theorem ValueInfo.interface_of_unconnected {info : ValueInfo} (h : info.isConnected = false)
    (port : Use) : info.interfacePragmas port = [] := by
  simp only [isConnected, Bool.or_eq_false_iff, Bool.not_eq_false', decide_eq_false_iff_not,
    not_not] at h
  rw [interfacePragmas, h.1, h.2]
  rfl

/-- The memory lines of an array, with a blank line behind. -/
theorem ValueInfo.memory_lines (info : ValueInfo) (array : Use) :
    WrittenAs (info.memoryPragmas array) ((info.placement array).map Pragma.text ++ [""]) := by
  rw [memoryPragmas_eq]
  exact (WrittenAs.pragmas _).append .blank

/-! ## Emission -/

namespace Emission

variable {scope : Scope} {t : NameTable} {lines lines' : List String}

/-- An emission gives no names, and what it emits is written as these lines. -/
structure WritesLines (scope : Scope) (t : NameTable) (e : Emission (List Stmt))
    (lines : List String) : Prop where
  names : (e.run scope t).names = t
  writes : WrittenAs (e.run scope t).value lines

namespace WritesLines

/-- Statements alone write their lines. -/
theorem pure {stmts : List Stmt} (h : WrittenAs stmts lines) :
    WritesLines scope t (pure stmts) lines :=
  ⟨rfl, h⟩

/-- What gives no names only hands its value on. -/
theorem bind {α : Type} {first : Emission α} {next : α → Emission (List Stmt)}
    (hnames : NamesNothing first)
    (h : WritesLines scope t (next (first.run scope t).value) lines) :
    WritesLines scope t (first >>= next) lines := by
  constructor
  · rw [bind_apply, Outcome.andThen, hnames]
    exact h.names
  · rw [bind_apply, Outcome.andThen, hnames]
    exact h.writes

/-- What follows writes its lines behind. -/
theorem andThen {e : Emission (List Stmt)} {next : List Stmt → Emission (List Stmt)}
    (h : WritesLines scope t e lines)
    (hnext : ∀ stmts, WrittenAs stmts lines → WritesLines scope t (next stmts) lines') :
    WritesLines scope t (e >>= next) lines' := by
  have hnext := hnext _ h.writes
  constructor
  · rw [bind_apply, Outcome.andThen, h.names]
    exact hnext.names
  · rw [bind_apply, Outcome.andThen, h.names]
    exact hnext.writes

/-- Two emissions write their lines one behind the other. -/
theorem append {e e' : Emission (List Stmt)} (h : WritesLines scope t e lines)
    (h' : WritesLines scope t e' lines') :
    WritesLines scope t (do return (← e) ++ (← e')) (lines ++ lines') :=
  h.andThen fun _ hfirst => h'.andThen fun _ hsecond => .pure (hfirst.append hsecond)

end WritesLines

/-- One line for each port that is connected, in order. -/
theorem interfaces_lines (scope : Scope) (t : NameTable) (ports : List ValueId) :
    ∃ lines, WritesLines scope t (interfaces ports) lines ∧
      List.Forall₂ (fun id line => (scope.values.info id).Interface (scope.values.portName t id) line)
        (ports.filter fun id => (scope.values.info id).isConnected) lines := by
  induction ports with
  | nil => exact ⟨[], .pure .nil, .nil⟩
  | cons port rest ih =>
    obtain ⟨others, hwrites, hothers⟩ := ih
    have hinterface {lines : List String} (h : WrittenAs
        ((scope.values.info port).interfacePragmas (scope.values.use t port)) lines) :
        WritesLines scope t (interface port) lines :=
      .bind (info_namesNothing port) (.bind (fun _ _ => rfl) (.pure h))
    -- A port without an interface writes no line.
    cases hconnected : (scope.values.info port).isConnected with
    | false =>
      rw [ValueInfo.interface_of_unconnected hconnected] at hinterface
      refine ⟨others, (hinterface .nil).append hwrites, ?_⟩
      rwa [List.filter_cons_of_neg (by simp [hconnected])]
    | true =>
      obtain ⟨line, hline, hport⟩ :=
        ValueInfo.interface_of_connected hconnected (scope.values.use t port)
      rw [Arena.portText_use] at hport
      refine ⟨line :: others, (hinterface hline).append hwrites, ?_⟩
      rw [List.filter_cons_of_pos (by simp [hconnected])]
      exact .cons hport hothers

/-- An array on the chip is placed. -/
theorem arrayPragmas_lines (op : Option Op) (scope : Scope) (t : NameTable) (id : ValueId) :
    WritesLines scope t (arrayPragmas op id)
      (if scope.values.isOnChip id then scope.values.memoryLines t id else []) := by
  refine .bind (info_namesNothing id) ?_
  show WritesLines scope t (if !scope.values.isOnChip id then _ else _) _
  cases scope.values.isOnChip id with
  | false => exact .pure .nil
  | true =>
    refine .bind (fun _ _ => rfl) ?_
    -- the warning writes nothing
    have hmemory : WritesLines scope t
        (Pure.pure ((scope.values.info id).memoryPragmas (scope.values.use t id)))
        (scope.values.memoryLines t id) :=
      .pure ((scope.values.info id).memory_lines (scope.values.use t id))
    split
    · exact .bind (fun _ _ => rfl) hmemory
    · exact hmemory

/-- The arrays on the chip are placed, in order. -/
theorem portArrayPragmas_lines (scope : Scope) (t : NameTable) (ports : List ValueId) :
    WritesLines scope t (portArrayPragmas ports)
      ((ports.filter fun id => (scope.values.info id).isShaped && scope.values.isOnChip id).flatMap
        (scope.values.memoryLines t)) := by
  induction ports with
  | nil => exact .pure .nil
  | cons port rest ih =>
    refine .bind (info_namesNothing port) ?_
    show WritesLines scope t (if (scope.values.info port).isShaped = true then _ else _) _
    -- A scalar is not placed, and neither is an array off the chip.
    cases hshaped : (scope.values.info port).isShaped with
    | false =>
      rw [List.filter_cons_of_neg (by simp [hshaped])]
      exact WritesLines.append (.pure .nil) ih
    | true =>
      have happend := (arrayPragmas_lines none scope t port).append ih
      cases honChip : scope.values.isOnChip port with
      | false =>
        rw [List.filter_cons_of_neg (by simp [honChip])]
        rwa [honChip] at happend
      | true =>
        rw [List.filter_cons_of_pos (by simp [hshaped, honChip])]
        rwa [honChip] at happend

/-- The first lines of a body, for any list of ports. -/
theorem functionPragmas_lines (attrs : FuncAttrs) (ports : List ValueId) (scope : Scope)
    (t : NameTable) :
    ∃ lines, attrs.Opening scope.values t ports lines ∧
      WritesLines scope t (functionPragmas attrs ports) lines := by
  have hschedule : WrittenAs ((if attrs.dataflow then [.pragma .dataflow, .blank] else []) ++
      if attrs.pipeline then [.pragma (.pipeline (attrs.targetInterval.getD 1)), .blank] else [])
      attrs.scheduleLines := by
    refine .append ?_ ?_
    · split
      · exact (WrittenAs.pragma _).append .blank
      · exact .nil
    · split
      · exact (WrittenAs.pragma _).append .blank
      · exact .nil
  unfold functionPragmas
  dsimp only
  -- Only a top function has lines of its ports.
  cases htop : attrs.topFunction with
  | false => exact ⟨_, .inner htop, .pure hschedule⟩
  | true =>
    obtain ⟨interfaces, hinterfaces, hlines⟩ := interfaces_lines scope t ports
    have harrays := portArrayPragmas_lines scope t ports
    refine ⟨_, .top htop hlines, hinterfaces.andThen fun first hfirst =>
      harrays.andThen fun second hsecond => .pure ?_⟩
    have hreturn := (WrittenAs.pragma .returnInterface).append hfirst
    exact (hschedule.append hreturn).append (WrittenAs.blank.append hsecond)

/-- The signature of a function: its arguments and behind them the values that it returns. -/
def signature (function : Function) : Emission (List Declarator) := do
  checkStructure function
  let arguments ← arguments function.args
  let ret ← returnOp? function
  return arguments ++ (← results ret)

/-- What a function has in the braces of its body: the first lines, and then its first block. -/
theorem function_parts (arena : Arena) (t : NameTable) (function : Function) (name : Option String) :
    let scope : Scope := ⟨arena, some function.name⟩
    let ports := (signature function).run scope t
    let pragmas := (functionPragmas function.attrs (function.args ++ function.returned)).run scope
      ports.names
    ((Emission.function function).run ⟨arena, name⟩ t).value =
      { name := function.name
        remarks := function.attrs.remarks
        ports := ports.value
        note := { line := function.line }
        body := pragmas.value ++ ((body function.blocks).run scope pragmas.names).value } := by
  intro scope
  have hret := returnOp?_value function scope ((arguments function.args).run scope
    ((checkStructure function).run scope t).names).names
  rw [function.returned_eq, ← hret]
  rfl

/-- The body of every function starts with the lines that its attributes and its ports call for, with the
names that the signature has given; and these lines are the right ones for any list of ports. -/
theorem interfaces_match_ports (function : Function) :
    (∀ (ports : List ValueId) (scope : Scope) (t : NameTable),
      ∃ lines, function.attrs.Opening scope.values t ports lines ∧
        WritesLines scope t (functionPragmas function.attrs ports) lines) ∧
    ∀ (arena : Arena) (t : NameTable) (name : Option String),
      let scope : Scope := ⟨arena, some function.name⟩
      let names := ((signature function).run scope t).names
      let code := ((Emission.function function).run ⟨arena, name⟩ t).value
      ∃ lines, function.attrs.Opening arena names (function.args ++ function.returned) lines ∧
        code.text = code.headText ++ String.join (lines.map (plainLine 1)) ++
          stmtsText 1 ((body function.blocks).run scope names).value ++ "\x7d\n\n" := by
  refine ⟨fun ports scope t => functionPragmas_lines function.attrs ports scope t,
    fun arena t name => ?_⟩
  intro scope names code
  obtain ⟨lines, hopening, hlines⟩ :=
    functionPragmas_lines function.attrs (function.args ++ function.returned) scope names
  refine ⟨lines, hopening, ?_⟩
  -- The signature gives the names, the pragmas are written with them, the body follows.
  have hbody : code.body = ((functionPragmas function.attrs (function.args ++ function.returned)).run
      scope names).value ++ ((body function.blocks).run scope names).value := by
    have hparts := congrArg FunctionCode.body (function_parts arena t function name)
    dsimp only at hparts
    rwa [hlines.names] at hparts
  rw [FunctionCode.text_eq, hbody, stmtsText_append, hlines.writes 1]
  simp only [String.append_assoc]

/-- An array in external memory, one on the chip, one without a place, and a returned scalar. -/
example :
    let arena : Arena := #[{ elem := .f32, shape := .fixed [8], memory := .dram },
      { elem := .f32, shape := .fixed [8], memory := .bram1p },
      { elem := .f32, shape := .fixed [8] }, { elem := .f32 }]
    let t : NameTable := ⟨[(⟨3⟩, .declared ⟨3, true⟩), (⟨2⟩, .declared ⟨2, false⟩),
      (⟨1⟩, .declared ⟨1, false⟩), (⟨0⟩, .declared ⟨0, false⟩)]⟩
    let opening := functionPragmas { topFunction := true } [⟨0⟩, ⟨1⟩, ⟨2⟩, ⟨3⟩]
    stmtsText 0 (opening.run ⟨arena, none⟩ t).value =
      "#pragma HLS interface s_axilite port=return bundle=ctrl\n" ++
      "#pragma HLS interface m_axi offset=slave port=val0\n" ++
      "#pragma HLS interface bram port=val1\n" ++
      "#pragma HLS interface s_axilite port=val3 bundle=ctrl\n" ++
      "\n" ++
      "#pragma HLS resource variable=val1 core=ram_1p_bram\n\n" := by decide +kernel

end Emission

end HlsEmit
