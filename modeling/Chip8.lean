import Chip8.Console
import Chip8.Hex.Value
import Chip8.Machine.Dump
import Chip8.Proofs.Bounds
import Chip8.Proofs.ConsoleRefinement
import Chip8.Proofs.Control
import Chip8.Proofs.Effect
import Chip8.Proofs.FaultAtomicity
import Chip8.Proofs.FaultCondition
import Chip8.Proofs.Runs
import Chip8.Proofs.StepCases
import Chip8.Screen
import Chip8.Proofs.WriteSets
import Chip8.Proofs.Lockstep
import Chip8.Proofs.LevelAgreement
import Chip8.Proofs.Subroutines
import Chip8.Proofs.TimerInterleaving
import Chip8.Proofs.InformationFlow
import Chip8.Proofs.SurfaceCalls
import Chip8.Proofs.Reset
import Chip8.Proofs.DumpText
import Chip8.Proofs.Tracing
import Chip8.Proofs.RandomBytes
import Chip8.Proofs.ImageLoading
import Chip8.Proofs.Decoding
import Chip8.Proofs.Alignment
import Chip8.Proofs.RegisterArithmetic
import Chip8.Proofs.Sprites
import Chip8.Proofs.Guarded
import Chip8.Proofs.GuardedDrawing
import Chip8.Proofs.GuardedStep
import Chip8.Proofs.BlockStreams
import Chip8.Proofs.KeyWaiting
import Chip8.Proofs.LitPixels
import Chip8.Proofs.PixelParity
import Chip8.Proofs.StoredBytes
import Chip8.Proofs.FetchedWords
import Chip8.Proofs.Glyphs
import Chip8.Proofs.IndexAddition
import Chip8.Proofs.Keys
import Chip8.Proofs.LevelNames
import Chip8.Proofs.Skips
import Chip8.Proofs.ZeroRuns
