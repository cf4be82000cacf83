import PegScan.Config
import PegScan.Session.Matching

/-!
# Scanning for literals
A scan reads a whole text and lists the long bracket literals in it. What is no literal is
passed one character at a time.
-/

namespace PegScan

structure Literal where
  start : Position
  level : Nat
  content : String
  length : Nat
  deriving DecidableEq, Repr

/-- The body of the literal that is being read, and the literals read, the latest first. -/
structure Findings where
  content : Option String := none
  literals : List Literal := []
  deriving DecidableEq, Repr

namespace Findings

def keepContent (m : Matched) (f : Findings) : Findings := { f with content := some m.text }

def keepLiteral (marker : Char) (m : Matched) (f : Findings) : Findings where
  content := none
  literals :=
    { start := m.start
      level := ((m.text.toList.drop 1).takeWhile (· = marker)).length
      content := f.content.getD ""
      length := m.text.toList.length } :: f.literals

end Findings

structure Scanner where
  config : Config
  bracket : LongBracket
  hooks : HookTable Findings

namespace Scanner

/-- Literals and single characters, as long as there are any. -/
def grammar (bracket : LongBracket) : Rule :=
  .star [.choice [.longBracket bracket [], .any]]

/-- The body is kept when it has matched, the literal when all of it has. -/
def hookDecls (bracket : LongBracket) : HookDecls Findings :=
  ((({} : HookDecls Findings).declare bracket.contentName
      { action := some Findings.keepContent }).declare bracket.name
      { action := some (Findings.keepLiteral bracket.delimiters.marker) })

def ofConfig (config : Config) : Except Error Scanner := do
  config.validate
  let bracket : LongBracket := { delimiters := config.delimiters, name := "literal" }
  let hooks ← (hookDecls bracket).compile .on
  hooks.validate (grammar bracket).outline
  return { config, bracket, hooks }

def control (s : Scanner) : Control :=
  if s.config.matching.trace then .tracing else .normal

def context (s : Scanner) : Context Findings where
  toControl := s.control
  hooks := s.hooks
  lineBreak := s.config.matching.lineBreak
  maxDepth := s.config.matching.maxDepth.toNat

/-- All literals of a text, or the error that ended the scan. -/
def scan (s : Scanner) (text : String) : Except Error (List Literal) :=
  match (Session.begin s.context text {}).parse s.context (grammar s.bracket) with
  | (.failed e, _) => .error e
  | (_, session) => .ok session.state.literals.reverse

end Scanner

/-- Scans a single text. -/
def scan (config : Config) (text : String) : Except Error (List Literal) := do
  (← Scanner.ofConfig config).scan text

end PegScan
