import Cmm.Main
import Cmm.Node.Build
import Cmm.Proofs.Bindings
import Cmm.Proofs.Table
import Cmm.Proofs.Env
import Cmm.Proofs.Typing.Rules
import Cmm.Proofs.Typing.Checks
import Cmm.Proofs.Tree
import Cmm.Proofs.Typing.Trees
import Cmm.Proofs.Typing.Expressions
import Cmm.Proofs.Typing.References
import Cmm.Proofs.Parse
import Cmm.Proofs.Complete
import Cmm.Proofs.Typing.Statements
import Cmm.Proofs.Stages
import Cmm.Proofs.Typing.Soundness
import Cmm.Proofs.Ebnf
import Cmm.Proofs.Words
import Cmm.Proofs.Sentence.Productions
import Cmm.Proofs.Sentence.Sound
import Cmm.Proofs.Sentence.Expressions
import Cmm.Proofs.Sentence.Statements
import Cmm.Proofs.Sentence.Exact
import Cmm.Proofs.Table.Names
import Cmm.Proofs.Table.Links
import Cmm.Proofs.Table.Maps
import Cmm.Proofs.Actions
import Cmm.Proofs.Signatures
import Cmm.Proofs.Scopes
import Cmm.Proofs.Redeclarations
import Cmm.Proofs.Table.Handles
import Cmm.Proofs.Table.Settled
import Cmm.Proofs.Decoding
import Cmm.Proofs.Scan.Lexemes
import Cmm.Proofs.Scan.Pieces
import Cmm.Proofs.Scan.Stops
import Cmm.Proofs.Scan.Exact
import Cmm.Proofs.Scan.Lossless
import Cmm.Proofs.Handover.Parts
import Cmm.Proofs.Handover.Items
import Cmm.Proofs.Handover.Interrupted
import Cmm.Proofs.Handover.Bodies
import Cmm.Proofs.Handover.Protocol
import Cmm.Proofs.Globals
import Cmm.Proofs.Relabel.Phrases
import Cmm.Proofs.Relabel.Reading
import Cmm.Proofs.Relabel.Tables
import Cmm.Proofs.Relabel.Trees
import Cmm.Proofs.Relabel.Programs
import Cmm.Proofs.Layout
import Cmm.Proofs.Renaming
import Cmm.Proofs.SyntaxErrors
import Cmm.Proofs.Prefix.Persists
import Cmm.Proofs.Prefix.Productions
import Cmm.Proofs.Prefix.Programs
import Cmm.Proofs.Handover.Outlines
import Cmm.Proofs.Lines
import Cmm.Proofs.Places
import Cmm.Proofs.Scan.LineByLine
import Cmm.Proofs.Scan.Spread
import Cmm.Proofs.Printing.Gets
import Cmm.Proofs.Printing.Expressions
import Cmm.Proofs.Printing.Trees
import Cmm.Proofs.Printing.Commands
import Cmm.Proofs.Printing.Statements
import Cmm.Proofs.Printing.Bodies
import Cmm.Proofs.Prototypes
import Cmm.Proofs.Typing.Arguments
import Cmm.Proofs.Typing.Calls
import Cmm.Proofs.Typing.Absorption
import Cmm.Proofs.Returns
import Cmm.Proofs.Declarations.Runs
import Cmm.Proofs.Declarations.Readings
import Cmm.Proofs.Declarations.Lists
import Cmm.Proofs.Census
import Cmm.Proofs.Locations
import Cmm.Proofs.Halting.Walks
import Cmm.Proofs.Halting.Productions
import Cmm.Proofs.Halting.Programs
import Cmm.Proofs.Nesting.Trees
import Cmm.Proofs.Nesting.Checks
import Cmm.Proofs.Nesting.Lays
import Cmm.Proofs.Nesting.Phrases
import Cmm.Proofs.Nesting.Programs
import Cmm.Proofs.Constants
import Cmm.Proofs.Numerals
import Cmm.Proofs.Outcomes
import Cmm.Proofs.Carets
import Cmm.Proofs.Colours
import Cmm.Proofs.Lists
