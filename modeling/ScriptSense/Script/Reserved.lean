/-!
# Reserved names

The keywords, commands and constants of the script language, in the order in which completion
offers them. A reserved name is never undeclared, and it has a fixed description.
-/

namespace ScriptSense.Script

inductive Category
  | keyword
  | builtin
  | constant
  deriving DecidableEq, Repr, Inhabited

def Category.name : Category → String
  | .keyword => "keyword"
  | .builtin => "builtin"
  | .constant => "constant"

/-- A reserved name, a summary of a few words, and a description in Markdown. -/
structure Reserved where
  name : String
  category : Category
  detail : String
  description : String
  deriving DecidableEq, Repr, Inhabited

/-- A command is completed with the space before its argument. -/
def Reserved.insertText (reserved : Reserved) : Option String :=
  match reserved.category with
  | .builtin => some (reserved.name ++ " ")
  | .keyword | .constant => none

def reservedNames : List Reserved := [
  { name := "let"
    category := .keyword
    detail := "variable declaration"
    description :=
      "**Variable declaration**\n\nDeclares a variable and assigns its initial value.\n\n" ++
        "```inmu\nlet x = 42\nlet name = \"INMU\"\n```" },
  { name := "if"
    category := .keyword
    detail := "conditional"
    description :=
      "**Conditional**\n\nRuns the block when the condition is true. Use a `\x7b ... \x7d` " ++
        "block or close the body with `endif`.\n\n```inmu\nif x > 0 \x7b\n  print \"positive\"\n" ++
        "\x7d\n```" },
  { name := "else"
    category := .keyword
    detail := "else branch"
    description :=
      "**Else branch**\n\nRuns when the condition of the preceding `if` is false.\n\n```inmu\n" ++
        "if x > 0 \x7b\n  print \"positive\"\n\x7d else \x7b\n" ++
        "  print \"not positive\"\n\x7d\n```" },
  { name := "elsif"
    category := .keyword
    detail := "chained conditional"
    description :=
      "**Chained conditional**\n\nTests another condition when the preceding `if` did not match." },
  { name := "endif"
    category := .keyword
    detail := "end of conditional"
    description :=
      "**End of conditional**\n\nCloses an `if` body written without braces." },
  { name := "while"
    category := .keyword
    detail := "while loop"
    description :=
      "**While loop**\n\nRepeats the block while the condition holds.\n\n```inmu\nwhile i < 10 " ++
        "\x7b\n  print i\n  i = i + 1\n\x7d\n```" },
  { name := "endwhile"
    category := .keyword
    detail := "end of while loop"
    description :=
      "**End of while loop**\n\nCloses a `while` body written without braces." },
  { name := "for"
    category := .keyword
    detail := "for loop"
    description :=
      "**For loop**\n\nRepeats the block a given number of times." },
  { name := "fn"
    category := .keyword
    detail := "function definition"
    description :=
      "**Function definition**\n\nDefines a new function.\n\n```inmu\nfn add(x, y) \x7b\n  " ++
        "return x + y\n\x7d\n```" },
  { name := "return"
    category := .keyword
    detail := "return value"
    description :=
      "**Return**\n\nReturns a value from the current function.\n\n```inmu\nfn get_value() " ++
        "\x7b\n  return 42\n\x7d\n```" },
  { name := "print"
    category := .builtin
    detail := "print a value"
    description :=
      "**print**\n\nWrites a value to standard output.\n\n```inmu\nprint \"Hello, World!\"\n" ++
        "print x + y\n```\n\n**Arguments:**\n- any value (string, number, expression)" },
  { name := "assert"
    category := .builtin
    detail := "assert equality"
    description :=
      "**assert**\n\nChecks that two values are equal and reports an error otherwise.\n\n" ++
        "```inmu\nassert x == 10\n```\n\n**Arguments:**\n- a comparison using `==`" },
  { name := "assert_ne"
    category := .builtin
    detail := "assert inequality"
    description :=
      "**assert_ne**\n\nChecks that two values differ and reports an error when they are " ++
        "equal.\n\n```inmu\nassert_ne x != 0\n```\n\n**Arguments:**\n- a comparison using `!=`" },
  { name := "debug"
    category := .builtin
    detail := "debug output"
    description :=
      "**debug**\n\nPrints debugging information while troubleshooting.\n\n```inmu\ndebug x\n" ++
        "debug \"checkpoint reached\"\n```\n\n**Arguments:**\n- any value" },
  { name := "trace"
    category := .builtin
    detail := "trace output"
    description :=
      "**trace**\n\nPrints trace information to follow the execution flow.\n\n```inmu\ntrace " ++
        "\"entering function\"\n```\n\n**Arguments:**\n- any value" },
  { name := "true"
    category := .constant
    detail := "boolean true"
    description :=
      "**true**\n\nThe boolean value true." },
  { name := "false"
    category := .constant
    detail := "boolean false"
    description :=
      "**false**\n\nThe boolean value false." }]

def reserved? (name : String) : Option Reserved :=
  reservedNames.find? (·.name == name)

def isReserved (name : String) : Bool :=
  (reserved? name).isSome

end ScriptSense.Script
