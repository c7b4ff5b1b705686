import DbSchema.Config
import DbSchema.Cache
import DbSchema.Proofs.Layout
import DbSchema.Proofs.Forward
import DbSchema.Proofs.Shifted
import DbSchema.Proofs.Agree
import DbSchema.Proofs.LineBreak
import DbSchema.Proofs.Recovery
import DbSchema.Proofs.Relex
import DbSchema.Proofs.Spelling
import DbSchema.Proofs.ReadBack
import DbSchema.Proofs.RoundTrip
import DbSchema.Proofs.WellFormed
import DbSchema.Parsed
import DbSchema.Proofs.FifoMemo
import DbSchema.Proofs.Grammar
import DbSchema.Proofs.GrammarComplete
import DbSchema.Proofs.GrammarSound
import DbSchema.Proofs.CleanPrefix
import DbSchema.Proofs.Positions
import DbSchema.Proofs.Separator
import DbSchema.Proofs.Progress
import DbSchema.Proofs.ErrorSite
import DbSchema.Proofs.ErrorOrder
import DbSchema.Proofs.LongestMatch
import DbSchema.Proofs.Nesting
import DbSchema.Proofs.Reorder
import DbSchema.Proofs.Repeats
import DbSchema.Proofs.SafeNames
import DbSchema.Proofs.WordBoundary
import DbSchema.Proofs.MemberNames
import DbSchema.Proofs.Lookahead
import DbSchema.Proofs.IntegerLiterals
import DbSchema.Proofs.OneLine
import DbSchema.Proofs.MessageLines
