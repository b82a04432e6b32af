import ChatArgs.Document.Basic

/-! # Writing JSON

The compact form: no blanks, fields in order, and in texts only the quote, the
backslash and control characters below the space are escaped.
-/

namespace ChatArgs.Document

namespace Json

def hexDigit (n : Nat) : Char :=
  if n < 10 then Char.ofNat (n + 48) else Char.ofNat (n + 87)

def escapeChar (c : Char) : List Char :=
  if c == '"' then ['\\', '"']
  else if c == '\\' then ['\\', '\\']
  else if c == '\x08' then ['\\', 'b']
  else if c == '\t' then ['\\', 't']
  else if c == '\n' then ['\\', 'n']
  else if c == '\x0c' then ['\\', 'f']
  else if c == '\r' then ['\\', 'r']
  else if c.toNat < 0x20 then
    ['\\', 'u', '0', '0', hexDigit (c.toNat / 16), hexDigit (c.toNat % 16)]
  else [c]

def renderText (s : String) : List Char :=
  '"' :: (s.toList.flatMap escapeChar ++ ['"'])

def renderBool (b : Bool) : List Char :=
  if b then ['t', 'r', 'u', 'e'] else ['f', 'a', 'l', 's', 'e']

mutual

/-- A document in compact form. Scalars that have no type of their own are written as
texts, and of a tagged node or an alias the node is written. -/
def render : Document → List Char
  | .null => ['n', 'u', 'l', 'l']
  | .bool b => renderBool b
  | .number source => source.toList
  | .text s => renderText s
  | .illFormed => renderText ""
  | .plain source => renderText source
  | .literal s => renderText s
  | .tagged _ node => render node
  | .alias node => render node
  | .list items => '[' :: renderItems true items
  | .record fields => '\x7b' :: renderFields true fields
termination_by structural d => d

/-- The items of a list and its closing bracket; `first` says that no item stands in front. -/
def renderItems (first : Bool) : List Document → List Char
  | [] => [']']
  | d :: ds => (if first then [] else [',']) ++ (render d ++ renderItems false ds)
termination_by structural ds => ds

def renderFields (first : Bool) : List (Document × Document) → List Char
  | [] => ['\x7d']
  | (key, d) :: fs =>
      (if first then [] else [',']) ++
        (render key ++ ':' :: (render d ++ renderFields false fs))
termination_by structural fs => fs

end

end Json

def toJson (d : Document) : String :=
  String.ofList (Json.render d)

end ChatArgs.Document
