import ChatArgs.Command.Validation
import ChatArgs.Options.File
import ChatArgs.Proofs.Command.Names
import ChatArgs.Proofs.Parse.Escaping
import ChatArgs.Proofs.Parse.NamedTexts
import ChatArgs.Proofs.Parse.PlainWords
import ChatArgs.Proofs.Parse.QuotedItems
import ChatArgs.Session
import ChatArgs.Proofs.Cache.Sound
import ChatArgs.Proofs.Session.Ledger
import ChatArgs.Proofs.Session.Transparency
import ChatArgs.Proofs.Options.Layers
import ChatArgs.Proofs.Options.SpelledOut
import ChatArgs.Proofs.Parse.Keys
import ChatArgs.Proofs.Parse.Apart
import ChatArgs.Proofs.Parse.Appended
import ChatArgs.Proofs.Parse.Offsets
import ChatArgs.Proofs.Parse.DisabledDelimiter
import ChatArgs.Proofs.Parse.RepliedUser
import ChatArgs.Proofs.Session.RepliedMessage
import ChatArgs.Proofs.Options.DataForm
import ChatArgs.Proofs.Cache.Names
import ChatArgs.Proofs.Parse.Nameable
import ChatArgs.Proofs.Parse.NoFailure
import ChatArgs.Proofs.Parse.CodeBlock
import ChatArgs.Proofs.Parse.BlockLanguage
import ChatArgs.Proofs.Parse.Surplus
import ChatArgs.Proofs.Parse.SingleWord
import ChatArgs.Proofs.Parse.AttachedWord
import ChatArgs.Proofs.Parse.LineEnd
import ChatArgs.Proofs.Parse.EarlyEnd
import ChatArgs.Proofs.Parse.RawText
import ChatArgs.Proofs.Parse.SlotEscapes
import ChatArgs.Proofs.Parse.SpacedItems
import ChatArgs.Proofs.Parse.OneFamily
import ChatArgs.Proofs.Parse.EscapedMarker
import ChatArgs.Proofs.Parse.LostText
import ChatArgs.Proofs.Command.DataForm
import ChatArgs.Proofs.Command.Defects
import ChatArgs.Proofs.Command.Partition
import ChatArgs.Proofs.Parse.FamilyLock
import ChatArgs.Proofs.Parse.WithoutColons
import ChatArgs.Proofs.Parse.LockedFamily
import ChatArgs.Proofs.Options.Deduplicated
import ChatArgs.Proofs.Parse.EscapeClasses
import ChatArgs.Proofs.Parse.Coverage
import ChatArgs.Proofs.Parse.Captures
