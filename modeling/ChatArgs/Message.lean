import ChatArgs.Args
import ChatArgs.Options.Form

/-! # Messages

The message that a command was sent in, as far as a parse needs it, and the result
that a parse leaves with it. The result does not take part in the data form.
-/

namespace ChatArgs

open Document (optional required defaulted)

structure Message where
  author : String
  /-- The author of the message that this one replies to. -/
  repliedTo : Option String := none
  mentions : List String := []
  /-- The result of the last parse, until somebody takes it. -/
  result : Option Args := none
deriving Repr

namespace Message

def mentionsUser (m : Message) (id : String) : Bool :=
  m.mentions.contains id

def attach (m : Message) (args : Args) : Message :=
  { m with result := some args }

def detach (m : Message) : Message :=
  { m with result := none }

/-- Two messages agree, in their results too. -/
def agrees (a b : Message) : Bool :=
  a.author == b.author && a.repliedTo == b.repliedTo && a.mentions == b.mentions &&
    match a.result, b.result with
    | none, none => true
    | some x, some y => x.agrees y
    | _, _ => false

def toDocument (m : Message) : Document :=
  .ofFields
    (("author_id", .text m.author) ::
      (givenField "replied_author_id" .text m.repliedTo ++
        if m.mentions.isEmpty then [] else [("mention_ids", .list (m.mentions.map .text))]))

def ofDocument? (d : Document) : Option Message :=
  match d.recordFields? .json ["author_id", "replied_author_id", "mention_ids"] with
  | some [author, repliedTo, mentions] => do
      let author ← required Document.asText? author
      let repliedTo ← optional Document.asText? repliedTo
      let mentions ← defaulted [] (Document.asListOf? Document.asText?) mentions
      pure { author, repliedTo, mentions }
  | _ => none

def toJson (m : Message) : String :=
  m.toDocument.toJson

def ofJson? (s : String) : Option Message :=
  (Document.ofJson? s).bind ofDocument?

end Message

end ChatArgs
