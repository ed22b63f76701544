import HlsEmit.Code.Tree

/-!
# Writing the generated code

The text of a program, line by line. A nested statement is indented by two blanks more than the
statement around it, and every line of an operation ends with its note: a tab, `//`, and what is
known about the operation.
-/

namespace HlsEmit.Code

/-! ## Expressions -/

/-- A mention as it is written. -/
def Mention.text : Mention → String
  | .use u => u.designator.text
  | .declare _ (some type) name => type ++ " " ++ name.text
  | .declare _ none name => name.text

mutual

/-- An expression as it is written. -/
def Expr.text : Expr → String
  | .mention mention => mention.text
  | .absent => ""
  | .counter dim => "idx" ++ toString dim
  | .integer value => toString value
  | .subscript array index => array.text ++ "[" ++ index.text ++ "]"
  | .negate operand => "-" ++ operand.text
  | .paren inner => "(" ++ inner.text ++ ")"
  | .operation operator lhs rhs => lhs.text ++ " " ++ operator.symbol ++ " " ++ rhs.text
  | .conditional condition onTrue onFalse =>
    condition.text ++ " ? " ++ onTrue.text ++ " : " ++ onFalse.text
  | .address operand => "&" ++ operand.text
  | .call head args => head ++ "(" ++ argsText args ++ ")"
termination_by structural e => e

/-- Arguments, separated by commas. -/
def argsText : List Expr → String
  | [] => ""
  | [arg] => arg.text
  | arg :: next :: rest => arg.text ++ ", " ++ argsText (next :: rest)
termination_by structural args => args

end

/-! ## Lines -/

/-- The blanks in front of a line. -/
def indent (depth : Nat) : String :=
  String.ofList (List.replicate (2 * depth) ' ')

/-- A part of a note that is written only if it is known. -/
def notePart (before after : String) : Option Int64 → String
  | none => ""
  | some n => before ++ toString n.toInt ++ after

/-- A note as it is written. -/
def Note.text (note : Note) : String :=
  let line := match note.line with
    | none => ""
    | some line => " L" ++ toString line.toNat
  "\t//" ++ line ++ notePart ", S[" "" note.scheduleBegin ++ notePart "," ")" note.scheduleEnd
    ++ notePart ", latency=" "" note.iterationLatency ++ notePart ", II=" "" note.interval

/-- The end of a line: its note, if it has one, and the line break. -/
def lineEnd : Option Note → String
  | none => "\n"
  | some note => note.text ++ "\n"

/-- A line without a note. A blank line is not indented. -/
def plainLine (depth : Nat) (line : String) : String :=
  if line.isEmpty then "\n" else indent depth ++ line ++ "\n"

/-- A declarator as it is written. -/
def Declarator.text (declarator : Declarator) : String :=
  declarator.extents.foldl (fun text extent => text ++ "[" ++ toString extent.toInt ++ "]")
    declarator.mention.text

/-- The C++ spelling of an assignment. -/
def Assignment.symbol : Assignment → String
  | .set => "="
  | .add => "+="
  | .multiply => "*="

/-- A pragma as it is written. -/
def Pragma.text : Pragma → String
  | .dataflow => "#pragma HLS dataflow"
  | .pipeline interval => "#pragma HLS pipeline II=" ++ toString interval.toInt
  | .unroll => "#pragma HLS unroll"
  | .returnInterface => "#pragma HLS interface s_axilite port=return bundle=ctrl"
  | .scalarInterface port =>
    "#pragma HLS interface s_axilite port=" ++ port.designator.portText ++ " bundle=ctrl"
  | .axiInterface port => "#pragma HLS interface m_axi offset=slave port=" ++ port.designator.portText
  | .bramInterface port => "#pragma HLS interface bram port=" ++ port.designator.portText
  | .resource array core =>
    "#pragma HLS resource variable=" ++ array.designator.portText ++ " core=" ++ core
  | .partition array cyclic factor dim =>
    "#pragma HLS array_partition variable=" ++ array.designator.portText
      ++ (if cyclic then " cyclic" else " block") ++ " factor=" ++ toString factor.toInt ++ " dim=" ++ toString dim

/-- The head of a loop as it is written, up to the parenthesis behind it. -/
def LoopHead.text : LoopHead → String
  | .range start lower test upper advance step =>
    "for (" ++ start.text ++ " = " ++ lower.text ++ "; " ++ test.text ++ " < " ++ upper.text ++ "; "
      ++ advance.text ++ " += " ++ step.text ++ ")"
  | .counter dim extent =>
    let index := "idx" ++ toString dim
    "for (int " ++ index ++ " = 0; " ++ index ++ " < " ++ toString extent.toInt ++ "; ++" ++ index
      ++ ")"

/-! ## Statements -/

mutual

/-- A statement as it is written at an indentation. -/
def Stmt.text (depth : Nat) : Stmt → String
  | .declaration declarator note => indent depth ++ declarator.text ++ ";" ++ lineEnd note
  | .initialized declarator elements note =>
    indent depth ++ declarator.text ++ " = \x7b" ++ ", ".intercalate elements ++ "\x7d;"
      ++ lineEnd note
  | .assign form target value note =>
    indent depth ++ target.text ++ " " ++ form.symbol ++ " " ++ value.text ++ ";" ++ lineEnd note
  | .call call note => indent depth ++ call.text ++ ";" ++ lineEnd note
  | .pragma pragma => indent depth ++ pragma.text ++ "\n"
  | .blank => "\n"
  | .accelerator _ lines => String.join (lines.map (plainLine depth))
  | .loop head note body closing =>
    indent depth ++ head.text ++ " \x7b" ++ lineEnd note ++ stmtsText (depth + 1) body
      ++ indent depth ++ "\x7d" ++ lineEnd closing
  | .branch condition note onTrue none =>
    indent depth ++ "if (" ++ condition.text ++ ") \x7b" ++ lineEnd note
      ++ stmtsText (depth + 1) onTrue ++ indent depth ++ "\x7d\n"
  | .branch condition note onTrue (some onFalse) =>
    indent depth ++ "if (" ++ condition.text ++ ") \x7b" ++ lineEnd note
      ++ stmtsText (depth + 1) onTrue ++ indent depth ++ "\x7d else \x7b\n"
      ++ stmtsText (depth + 1) onFalse ++ indent depth ++ "\x7d\n"
termination_by structural stmt => stmt

/-- Statements as they are written at an indentation. -/
def stmtsText (depth : Nat) : List Stmt → String
  | [] => ""
  | stmt :: rest => stmt.text depth ++ stmtsText depth rest
termination_by structural stmts => stmts

end

/-! ## Functions and programs -/

/-- A function as it is written, with the blank line behind it. -/
def FunctionCode.text (function : FunctionCode) : String :=
  String.join (function.remarks.map fun remark => "/// " ++ remark ++ "\n")
    ++ "void " ++ function.name ++ "(\n"
    ++ ",\n".intercalate (function.ports.map fun port => indent 1 ++ port.text)
    ++ "\n) \x7b" ++ lineEnd (some function.note)
    ++ stmtsText 1 function.body ++ "\x7d\n\n"

/-- The lines in front of every program. -/
def prologueLines : List String := [
  "",
  "//===------------------------------------------------------------*- C++ -*-===//",
  "//",
  "// Automatically generated file for High-level Synthesis (HLS).",
  "//",
  "//===----------------------------------------------------------------------===//",
  "",
  "#include <algorithm>",
  "#include <ap_axi_sdata.h>",
  "#include <ap_fixed.h>",
  "#include <ap_int.h>",
  "#include <hls_math.h>",
  "#include <hls_stream.h>",
  "#include <math.h>",
  "#include <stdint.h>",
  "#include <xf_blas.hpp>",
  "",
  "using namespace std;",
  "using namespace xf::blas;",
  ""]

/-- The text in front of every program. -/
def prologue : String :=
  String.join (prologueLines.map fun line => line ++ "\n")

/-- A path between the quotes of an include line: quotes and backslashes are escaped. -/
def escapePath (path : String) : String :=
  String.ofList <| path.toList.flatMap fun c =>
    if c = '"' || c = '\\' then ['\\', c] else [c]

/-- The include lines, with a blank line behind them if there are any. -/
def includesText (includes : List String) : String :=
  String.join (includes.map fun path => "#include \"" ++ escapePath path ++ "\"\n")
    ++ (if includes.isEmpty then "" else "\n")

/-- A whole program as it is written. -/
def Program.text (program : Program) : String :=
  prologue ++ includesText program.includes
    ++ String.join (program.functions.map FunctionCode.text)

end HlsEmit.Code
